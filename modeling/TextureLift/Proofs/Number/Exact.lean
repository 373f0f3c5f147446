import Mathlib.Algebra.Order.Floor.Semiring
import Mathlib.Data.Rat.Floor
import Mathlib.Tactic.Linarith
import TextureLift.Number.Half
import TextureLift.Proofs.Number.Rounding

/-!
# Exact values of patterns

What the operations on patterns compute, as exact arithmetic. Patterns are in the order of the numbers
they stand for:

    Stands a q → Stands b r → (rank a < rank b ↔ q < r)          (rank_lt_iff)

Products and conversions from integers return the pattern nearest to the exact result, and so does
narrowing to half precision:

    Stands a q → Stands b r → Format.single.Nearest (mul a b).toNat (q * r)     (nearest_mul)

Where the exact result has a pattern it is returned: integers of at most 24 binary digits
(`stands_ofInt`), the integers that patterns are rounded to (`Stands.roundAway`), and half-precision
numbers that are widened (`Half.stands_toSingle`).
-/

namespace TextureLift.Number

/-- The integer nearest to a number, ties away from zero. -/
def roundHalfAway (q : ℚ) : ℤ :=
  if q < 0 then -⌊-q + 1 / 2⌋ else ⌊q + 1 / 2⌋

theorem roundHalfAway_mono {q r : ℚ} (h : q ≤ r) : roundHalfAway q ≤ roundHalfAway r := by
  unfold roundHalfAway
  by_cases hr : r < 0
  · have hq : q < 0 := lt_of_le_of_lt h hr
    rw [if_pos hq, if_pos hr]
    exact neg_le_neg (Int.floor_le_floor (by linarith))
  · by_cases hq : q < 0
    · rw [if_pos hq, if_neg hr]
      have h1 : 0 ≤ ⌊-q + 1 / 2⌋ := Int.floor_nonneg.2 (by linarith)
      have h2 : 0 ≤ ⌊r + 1 / 2⌋ := Int.floor_nonneg.2 (by linarith)
      omega
    · rw [if_neg hq, if_neg hr]
      exact Int.floor_le_floor (by linarith)

/-- The rounding of a magnitude on integers is that of its number. -/
theorem nearestAway_eq (m : Nat) (e : Int) : (nearestAway m e : ℤ) = ⌊(m * 2 ^ e : ℚ) + 1 / 2⌋ := by
  unfold nearestAway
  by_cases he : 0 ≤ e
  · rw [if_pos he]
    have hcast : (m * 2 ^ e : ℚ) = ((m * 2 ^ e.toNat : ℕ) : ℤ) := by
      push_cast
      rw [← zpow_natCast, Int.toNat_of_nonneg he]
    rw [hcast, Int.floor_intCast_add]
    norm_num
  · rw [if_neg he]
    generalize hd : (2 : ℕ) ^ (-e).toNat = d
    have hpos : 0 < d := hd ▸ Nat.two_pow_pos _
    have hpow : (2 : ℚ) ^ e = 1 / d := by
      rw [← hd]
      push_cast
      rw [← zpow_natCast, Int.toNat_of_nonneg (by omega), zpow_neg, one_div, inv_inv]
    have hsum : (m * 2 ^ e : ℚ) + 1 / 2 = ((2 * m + d : ℕ) : ℚ) / ((d * 2 : ℕ) : ℚ) := by
      have hd0 : (d : ℚ) ≠ 0 := Nat.cast_ne_zero.2 (Nat.pos_iff_ne_zero.1 hpos)
      rw [hpow]
      push_cast
      field_simp
    rw [hsum, Rat.floor_natCast_div_natCast, ← Int.natCast_ediv, ← Nat.div_div_eq_div_mul,
      Nat.add_div_right _ hpos]
    exact congrArg (fun t : ℕ => (((2 * m / t + 1) / 2 : ℕ) : ℤ)) hd

/-- The rounding of a number keeps its sign. -/
theorem roundHalfAway_exact (negative : Bool) (m : Nat) (e : Int) :
    roundHalfAway (exact negative m e) = if negative then -(nearestAway m e : ℤ) else nearestAway m e := by
  have hpow : (0 : ℚ) < 2 ^ e := zpow_pos (by norm_num) e
  have hnonneg : (0 : ℚ) ≤ m * 2 ^ e := mul_nonneg (Nat.cast_nonneg m) hpow.le
  unfold roundHalfAway exact
  rw [nearestAway_eq]
  cases negative with
  | false =>
    simp only [Bool.false_eq_true, if_false, one_mul]
    rw [if_neg (not_lt.2 hnonneg)]
  | true =>
    simp only [if_true, neg_mul, one_mul, neg_neg]
    by_cases hm : m = 0
    · subst hm
      norm_num
    · have hpos : (0 : ℚ) < m * 2 ^ e := mul_pos (Nat.cast_pos.2 (Nat.pos_of_ne_zero hm)) hpow
      rw [if_pos (neg_neg_of_pos hpos)]

namespace Single

/-! ## Fields -/

/-- The pattern without its sign. -/
def magnitude (bits : UInt32) : Nat :=
  bits.toNat % 2147483648

def isNegative (bits : UInt32) : Bool :=
  2147483648 ≤ bits.toNat

theorem isNegative_toNat (bits : UInt32) : Format.single.isNegative bits.toNat = isNegative bits := by
  have hlt : bits.toNat < 4294967296 := bits.toNat_lt
  show (bits.toNat / 2147483648 % 2 == 1) = decide (2147483648 ≤ bits.toNat)
  rw [Bool.eq_iff_iff, beq_iff_eq, decide_eq_true_iff]
  omega

/-- Patterns above that of infinity are NaNs, and those below it are finite. -/
theorem decode_eq (bits : UInt32) : decode bits =
    if magnitude bits < 2139095040 then
      if magnitude bits < 8388608 then .finite (isNegative bits) (magnitude bits) (-149)
      else .finite (isNegative bits) (8388608 + magnitude bits % 8388608)
        (-149 + ((magnitude bits / 8388608 : ℕ) - 1))
    else if magnitude bits = 2139095040 then .infinite (isNegative bits)
    else .nan (isNegative bits) (magnitude bits % 8388608) := by
  have h := Format.single.decode_eq bits.toNat
  rw [isNegative_toNat] at h
  exact h

/-! ## Numbers of patterns -/

/-- The pattern is finite and stands for the number. -/
def Stands (a : UInt32) (q : ℚ) : Prop :=
  ∃ negative m e, decode a = .finite negative m e ∧ exact negative m e = q

/-- The number of a finite pattern as a multiple of the least positive one. -/
def multiple (a : UInt32) : ℤ :=
  if isNegative a then -(Format.single.units (magnitude a) : ℤ) else Format.single.units (magnitude a)

theorem stands_iff {a : UInt32} {q : ℚ} :
    Stands a q ↔ magnitude a < 2139095040 ∧ q = multiple a * 2 ^ (-149 : ℤ) := by
  have h : Stands a q ↔ _ := Format.stands_iff
  have hvalue : (if isNegative a then -1 else 1) * Format.single.value (magnitude a) =
      multiple a * 2 ^ (-149 : ℤ) := by
    unfold multiple
    rw [show Format.single.value (magnitude a) = Format.single.units (magnitude a) * 2 ^ (-149 : ℤ)
      from rfl]
    cases isNegative a <;> simp
  rw [isNegative_toNat] at h
  rw [← hvalue]
  exact h

namespace Stands

variable {a b : UInt32} {q r : ℚ}

theorem not_isNaN (h : Stands a q) : isNaN a = false := by
  obtain ⟨_, _, _, hd, -⟩ := h
  unfold isNaN
  rw [hd]

end Stands

theorem rank_eq (a : UInt32) :
    rank a = if isNegative a then -(magnitude a : ℤ) else magnitude a := by
  have hlt : a.toNat < 4294967296 := a.toNat_lt
  show (if a.toNat < 2147483648 then (a.toNat : ℤ) else 2147483648 - a.toNat) = _
  unfold isNegative magnitude
  by_cases h : a.toNat < 2147483648
  · rw [if_pos h, if_neg (by rw [decide_eq_true_iff]; omega)]
    omega
  · rw [if_neg h, if_pos (by rw [decide_eq_true_iff]; omega)]
    omega

/-- Positions are in the order of the multiples. -/
theorem rank_lt_iff_multiple (a b : UInt32) : rank a < rank b ↔ multiple a < multiple b := by
  have hmono : StrictMono Format.single.units := Format.units_strictMono
  have hlt := hmono.lt_iff_lt (a := magnitude a) (b := magnitude b)
  have hgt := hmono.lt_iff_lt (a := magnitude b) (b := magnitude a)
  have ha : 0 < Format.single.units (magnitude a) ↔ 0 < magnitude a := hmono.lt_iff_lt (a := 0)
  have hb : 0 < Format.single.units (magnitude b) ↔ 0 < magnitude b := hmono.lt_iff_lt (a := 0)
  rw [rank_eq, rank_eq]
  unfold multiple
  cases isNegative a <;> cases isNegative b <;> simp only [Bool.false_eq_true, if_true, if_false] <;>
    omega

theorem rank_lt_iff {a b : UInt32} {q r : ℚ} (ha : Stands a q) (hb : Stands b r) :
    rank a < rank b ↔ q < r := by
  have hpos : (0 : ℚ) < 2 ^ (-149 : ℤ) := zpow_pos (by norm_num) _
  rw [rank_lt_iff_multiple, (stands_iff.1 ha).2, (stands_iff.1 hb).2, mul_lt_mul_iff_left₀ hpos,
    Int.cast_lt]

/-- Infinities lie past all finite patterns. -/
theorem rank_infinite {a b : UInt32} {r : ℚ} {negative : Bool} (ha : decode a = .infinite negative)
    (hb : Stands b r) : if negative then rank a < rank b else rank b < rank a := by
  have hfin := (stands_iff.1 hb).1
  have hinf : magnitude a = 2139095040 ∧ isNegative a = negative := by
    rw [decode_eq] at ha
    split at ha
    · split at ha <;> cases ha
    · split at ha
      · cases ha
        exact ⟨‹_›, rfl⟩
      · cases ha
  rw [rank_eq, rank_eq, hinf.1, hinf.2]
  cases negative <;> cases isNegative b <;> simp only [Bool.false_eq_true, if_true, if_false] <;> omega

/-! ## Nearest patterns -/

theorem toNat_nearest (negative : Bool) (m : Nat) (e : Int) :
    (nearest negative m e).toNat = Format.single.round negative m e := by
  unfold nearest
  rw [UInt32.toNat_ofNat']
  exact Nat.mod_eq_of_lt (Format.single.round_lt negative m e)

theorem nearest_nearest (negative : Bool) (m : Nat) (e : Int) :
    Format.single.Nearest (nearest negative m e).toNat (exact negative m e) := by
  rw [toNat_nearest]
  exact Format.nearest_round Format.single_proper negative m e

/-- The product of two patterns is the exact product of their numbers, rounded once. -/
theorem nearest_mul {a b : UInt32} {q r : ℚ} (ha : Stands a q) (hb : Stands b r) :
    Format.single.Nearest (mul a b).toNat (q * r) := by
  obtain ⟨s, m, e, hda, rfl⟩ := ha
  obtain ⟨t, n, g, hdb, rfl⟩ := hb
  have hmul : mul a b = nearest (s != t) (m * n) (e + g) := by
    unfold mul
    rw [hda, hdb]
  rw [hmul, ← exact_mul]
  exact nearest_nearest _ _ _

theorem exact_natAbs (n : ℤ) : exact (decide (n < 0)) n.natAbs 0 = n := by
  unfold exact
  rw [zpow_zero, mul_one, Nat.cast_natAbs]
  by_cases h : n < 0
  · rw [decide_eq_true h, if_pos rfl, abs_of_neg h, Int.cast_neg, neg_one_mul, neg_neg]
  · rw [decide_eq_false h, if_neg Bool.false_ne_true, abs_of_nonneg (not_lt.1 h), one_mul]

theorem nearest_ofInt (n : ℤ) : Format.single.Nearest (ofInt n).toNat n := by
  have h := nearest_nearest (decide (n < 0)) n.natAbs 0
  rwa [exact_natAbs] at h

theorem nearest_ofUnsigned (w : UInt32) : Format.single.Nearest (ofUnsigned w).toNat w.toNat := by
  have h := nearest_ofInt w.toNat
  rwa [Int.cast_natCast] at h

theorem nearest_ofSigned (w : UInt32) :
    Format.single.Nearest (ofSigned w).toNat (w.toInt32.toInt : ℤ) :=
  nearest_ofInt _

/-! ## Numbers that are exact -/

/-- Past the largest finite number comes the first power of two without a pattern. -/
theorem value_infinity : Format.single.value Format.single.infinity = 2 ^ 128 := by
  have hunits : Format.single.units Format.single.infinity = 2 ^ 149 * 2 ^ 128 := by decide
  unfold Format.value
  rw [hunits, show Format.single.lastPlace = -149 from rfl]
  norm_num

/-- Numbers of at most 24 binary digits have patterns. -/
theorem stands_nearest_of_digits (negative : Bool) {m k : Nat} {e g : Int} (hk : k < 2 ^ 24)
    (hg : -149 ≤ g) (heq : (m * 2 ^ e : ℚ) = k * 2 ^ g) (hbound : (m * 2 ^ e : ℚ) < 2 ^ 128) :
    Stands (nearest negative m e) (exact negative m e) := by
  have h := Format.stands_round Format.single_proper negative hk hg heq (value_infinity ▸ hbound)
  rw [← toNat_nearest] at h
  exact h

theorem stands_nearest {n k j : Nat} (negative : Bool) (hn : n = k * 2 ^ j) (hk : k < 2 ^ 24)
    (hbound : n < 2 ^ 128) : Stands (nearest negative n 0) (if negative then -(n : ℤ) else n : ℤ) := by
  have heq : (n * 2 ^ (0 : ℤ) : ℚ) = k * 2 ^ (j : ℤ) := by
    rw [zpow_zero, mul_one, zpow_natCast, hn, Nat.cast_mul, Nat.cast_pow, Nat.cast_two]
  have hlt : (n * 2 ^ (0 : ℤ) : ℚ) < 2 ^ 128 := by
    rw [zpow_zero, mul_one]
    exact_mod_cast hbound
  have h := stands_nearest_of_digits negative hk (by omega) heq hlt
  have hvalue : exact negative n 0 = ((if negative then -(n : ℤ) else n : ℤ) : ℚ) := by
    unfold exact
    cases negative <;> simp
  rwa [hvalue] at h

/-- Integers that are exact are the numbers of their patterns. -/
theorem stands_ofInt {n : ℤ} {k j : Nat} (hn : n.natAbs = k * 2 ^ j) (hk : k < 2 ^ 24)
    (hbound : n.natAbs < 2 ^ 128) : Stands (ofInt n) n := by
  have h := stands_nearest (decide (n < 0)) hn hk hbound
  have heq : (if decide (n < 0) = true then -(n.natAbs : ℤ) else n.natAbs) = n := by
    split <;> rename_i hneg <;> rw [decide_eq_true_iff] at hneg <;> omega
  rw [heq] at h
  exact h

theorem stands_ofInt_of_lt {n : ℤ} (h : n.natAbs < 2 ^ 24) : Stands (ofInt n) n :=
  stands_ofInt (j := 0) (by rw [Nat.pow_zero, Nat.mul_one]) h (by omega)

/-! ## Rounding -/

/-- The nearest integer of a pattern has a pattern of its own. -/
theorem Stands.roundAway {a : UInt32} {q : ℚ} (h : Stands a q) :
    Stands (roundAway a) (roundHalfAway q) := by
  obtain ⟨negative, m, e, hd, rfl⟩ := h
  obtain ⟨hm, -, hbound⟩ := Format.finite_of_decode hd
  have hm : m < 2 ^ 24 := hm
  have hround : Single.roundAway a = nearest negative (nearestAway m e) 0 := by
    unfold Single.roundAway
    rw [hd]
  rw [hround, roundHalfAway_exact]
  by_cases hpos : 0 ≤ e
  · have hn : nearestAway m e = m * 2 ^ e.toNat := if_pos hpos
    have hlt : ((m * 2 ^ e.toNat : ℕ) : ℚ) < 2 ^ 128 := by
      rw [Nat.cast_mul, Nat.cast_pow, Nat.cast_two, ← zpow_natCast, Int.toNat_of_nonneg hpos,
        ← value_infinity]
      exact hbound
    exact stands_nearest negative hn hm (hn ▸ by exact_mod_cast hlt)
  · -- a number with a fraction has no more digits in front of the point than its significand
    have hn : nearestAway m e = (2 * m / 2 ^ (-e).toNat + 1) / 2 := if_neg hpos
    have hpow : 2 ≤ 2 ^ (-e).toNat := by
      calc 2 = 2 ^ 1 := rfl
        _ ≤ 2 ^ (-e).toNat := Nat.pow_le_pow_right (by decide) (by omega)
    have hdiv : 2 * m / 2 ^ (-e).toNat ≤ m := by
      rw [Nat.div_le_iff_le_mul_add_pred (by omega)]
      nlinarith
    have hle : nearestAway m e < 2 ^ 24 := by omega
    exact stands_nearest (j := 0) negative (by rw [Nat.pow_zero, Nat.mul_one]) hle (by omega)

end Single

/-! ## Half precision -/

namespace Half

/-- Narrowing rounds the number of a pattern once. -/
theorem nearest_ofSingle {a : UInt32} {q : ℚ} (h : Single.Stands a q) :
    Format.half.Nearest (ofSingle a).toNat q := by
  obtain ⟨negative, m, e, hd, rfl⟩ := h
  have hround : (ofSingle a).toNat = Format.half.round negative m e := by
    unfold ofSingle
    rw [hd, UInt16.toNat_ofNat']
    exact Nat.mod_eq_of_lt (Format.half.round_lt negative m e)
  rw [hround]
  exact Format.nearest_round Format.half_proper negative m e

/-- Widening keeps the number of a pattern. -/
theorem stands_toSingle {w : UInt16} {q : ℚ} (h : Format.half.Stands w.toNat q) :
    Single.Stands (toSingle w) q := by
  obtain ⟨negative, m, e, hd, rfl⟩ := h
  obtain ⟨hm, hlow, hhigh⟩ := Format.finite_of_decode hd
  have hnearest : toSingle w = Single.nearest negative m e := by
    unfold toSingle
    rw [hd]
    rfl
  have hlast : Format.half.lastPlace = -24 := rfl
  have hinfinity : Format.half.value Format.half.infinity < 2 ^ 128 := by
    have hunits : Format.half.units Format.half.infinity = 2 ^ 40 := by decide
    unfold Format.value
    rw [hunits, hlast]
    norm_num
  rw [hnearest]
  exact Single.stands_nearest_of_digits negative (lt_trans hm (by decide)) (by omega) rfl
    (hhigh.trans hinfinity)

/-- A number that was widened is narrowed to itself. -/
theorem stands_ofSingle_toSingle {w : UInt16} {q : ℚ} (h : Format.half.Stands w.toNat q) :
    Format.half.Stands (ofSingle (toSingle w)).toNat q :=
  (nearest_ofSingle (stands_toSingle h)).stands Format.half_proper h

end Half

end TextureLift.Number
