import Mathlib.Algebra.Order.Floor.Semiring
import Mathlib.Data.Rat.Floor
import Mathlib.Order.Monotone.Basic
import Mathlib.Tactic.Linarith
import Mathlib.Tactic.Positivity
import TextureLift.Number.Binary

/-!
# Rounding to nearest

What the patterns of a binary format stand for, and what rounding to the format means. A finite pattern
stands for a rational number, `Format.Stands`. The numbers of magnitudes grow with their patterns
(`value_strictMono`), and the pattern that keeps `k` digits above a last place of weight
`2 ^ (lastPlace + d)` has the number one expects:

    f.value (d * 2 ^ f.fractionBits + k) = k * 2 ^ (f.lastPlace + d)          (value_add)

A number therefore lies between the patterns of its digits rounded down and up, which are neighbours,
and it is enough to round the digits. `Format.Nearest` says what the result has to be: no number of the
format is nearer, of two that are as near the even pattern is taken, and from half a unit past the
largest finite number on the result is infinite.

    f.Nearest (f.round negative m e) (exact negative m e)                     (nearest_round)
-/

namespace TextureLift.Number

/-- The number `± m * 2 ^ e`. -/
def exact (negative : Bool) (m : Nat) (e : Int) : ℚ :=
  (if negative then -1 else 1) * (m * 2 ^ e)

theorem exact_mul (s t : Bool) (m n : Nat) (e g : Int) :
    exact (s != t) (m * n) (e + g) = exact s m e * exact t n g := by
  unfold exact
  rw [zpow_add₀ two_ne_zero, Nat.cast_mul]
  cases s <;> cases t <;> simp <;> ring

/-! ## Rounding to integers -/

/-- The integer nearest to `m * 2 ^ t`, ties to even. -/
def nearestEven (m : Nat) (t : Int) : Nat :=
  if 0 ≤ t then m * 2 ^ t.toNat else shiftRightNearest m (-t).toNat

/-- `kept` is `y` rounded to one of the integers `lower` and `lower + 1` around it: the nearer one, and
the even one if both are as near. -/
structure Rounds (y : ℚ) (lower kept : Nat) : Prop where
  lower_le : (lower : ℚ) ≤ y
  lt_upper : y < lower + 1
  nearer : kept = lower ∧ y - lower ≤ 1 / 2 ∨ kept = lower + 1 ∧ 1 / 2 ≤ y - lower
  tie : y - lower = 1 / 2 → Even kept

theorem Rounds.of_nat (n : Nat) : Rounds n n n where
  lower_le := le_refl _
  lt_upper := lt_add_one _
  nearer := .inl ⟨rfl, by rw [sub_self]; norm_num⟩
  tie h := by
    rw [sub_self] at h
    norm_num at h

theorem rounds_shiftRightNearest (m d : Nat) :
    Rounds (m / 2 ^ d) (m / 2 ^ d) (shiftRightNearest m d) := by
  have hpos : (0 : ℚ) < 2 ^ d := by positivity
  have hsplit : (m : ℚ) / 2 ^ d - (m / 2 ^ d : ℕ) = (m % 2 ^ d : ℕ) / 2 ^ d := by
    have h : (m : ℚ) = 2 ^ d * (m / 2 ^ d : ℕ) + (m % 2 ^ d : ℕ) := by
      exact_mod_cast (Nat.div_add_mod m (2 ^ d)).symm
    rw [eq_div_iff hpos.ne', sub_mul, div_mul_cancel₀ _ hpos.ne']
    linarith
  have hlt : m % 2 ^ d < 2 ^ d := Nat.mod_lt m (Nat.two_pow_pos d)
  -- both halves of the interval, measured by the remainder
  have hle : (m : ℚ) / 2 ^ d - (m / 2 ^ d : ℕ) ≤ 1 / 2 ↔ 2 * (m % 2 ^ d) ≤ 2 ^ d := by
    rw [hsplit, div_le_div_iff₀ hpos two_pos, one_mul, mul_comm]
    exact_mod_cast Iff.rfl
  have hge : 1 / 2 ≤ (m : ℚ) / 2 ^ d - (m / 2 ^ d : ℕ) ↔ 2 ^ d ≤ 2 * (m % 2 ^ d) := by
    rw [hsplit, div_le_div_iff₀ two_pos hpos, one_mul, mul_comm _ (2 : ℚ)]
    exact_mod_cast Iff.rfl
  have hkept : shiftRightNearest m d = if 2 * (m % 2 ^ d) < 2 ^ d then m / 2 ^ d
      else if 2 * (m % 2 ^ d) = 2 ^ d then m / 2 ^ d + m / 2 ^ d % 2 else m / 2 ^ d + 1 := rfl
  constructor
  · rw [← sub_nonneg, hsplit]
    positivity
  · rw [← sub_lt_iff_lt_add', hsplit, div_lt_one hpos]
    exact_mod_cast hlt
  · rw [hle, hge, hkept]
    split
    · exact .inl ⟨rfl, by omega⟩
    · split
      · rcases Nat.mod_two_eq_zero_or_one (m / 2 ^ d) with h | h
        · exact .inl ⟨by omega, by omega⟩
        · exact .inr ⟨by omega, by omega⟩
      · exact .inr ⟨rfl, by omega⟩
  · intro h
    have heq : 2 * (m % 2 ^ d) = 2 ^ d := le_antisymm (hle.1 h.le) (hge.1 h.ge)
    rw [hkept, if_neg (by omega), if_pos heq, Nat.even_iff]
    omega

theorem exists_rounds (m : Nat) (t : Int) : ∃ lower, Rounds (m * 2 ^ t) lower (nearestEven m t) := by
  unfold nearestEven
  by_cases ht : 0 ≤ t
  · have hcast : (m * 2 ^ t : ℚ) = (m * 2 ^ t.toNat : ℕ) := by
      push_cast
      rw [← zpow_natCast, Int.toNat_of_nonneg ht]
    rw [if_pos ht, hcast]
    exact ⟨_, Rounds.of_nat _⟩
  · have hdiv : (m * 2 ^ t : ℚ) = m / 2 ^ (-t).toNat := by
      rw [← zpow_natCast, Int.toNat_of_nonneg (by omega), zpow_neg, div_inv_eq_mul]
    rw [if_neg ht, hdiv]
    exact ⟨_, rounds_shiftRightNearest m _⟩

/-- In an increasing sequence, the nearer one of the two neighbours of a number is nearest to it, and
another member is as near only if the number lies in their middle. -/
theorem nearest_of_neighbours {u : Nat → ℚ} (hu : StrictMono u) {x : ℚ} {i p : Nat}
    (hlow : u i ≤ x) (hhigh : x < u (i + 1))
    (hp : p = i ∧ x - u i ≤ u (i + 1) - x ∨ p = i + 1 ∧ u (i + 1) - x ≤ x - u i) (c : Nat) :
    |x - u p| ≤ |x - u c| ∧ (c ≠ p → |x - u p| = |x - u c| → x - u i = u (i + 1) - x) := by
  have hbelow : |x - u i| = x - u i := abs_of_nonneg (sub_nonneg.2 hlow)
  have habove : |x - u (i + 1)| = u (i + 1) - x := by
    rw [abs_sub_comm]
    exact abs_of_nonneg (sub_nonneg.2 hhigh.le)
  rcases Nat.lt_or_ge i c with hc | hc
  · have hmono : u (i + 1) ≤ u c := hu.monotone hc
    have hdist : |x - u c| = u c - x := by
      rw [abs_sub_comm]
      exact abs_of_nonneg (by linarith)
    rcases hp with ⟨rfl, hle⟩ | ⟨rfl, hle⟩
    · rw [hbelow, hdist]
      exact ⟨by linarith, fun _ h => by linarith⟩
    · rw [habove, hdist]
      refine ⟨by linarith, fun hne h => ?_⟩
      have hlt : u (i + 1) < u c := hu (by omega)
      linarith
  · have hmono : u c ≤ u i := hu.monotone hc
    have hdist : |x - u c| = x - u c := abs_of_nonneg (by linarith)
    rcases hp with ⟨rfl, hle⟩ | ⟨rfl, hle⟩
    · rw [hbelow, hdist]
      refine ⟨by linarith, fun hne h => ?_⟩
      have hlt : u c < u p := hu (by omega)
      linarith
    · rw [habove, hdist]
      exact ⟨by linarith, fun _ h => by linarith⟩

namespace Format

variable (f : Format)

/-! ## Numbers of magnitudes -/

/-- The number of a magnitude as a multiple of the least positive one. -/
def units (p : Nat) : Nat :=
  if p < 2 ^ f.fractionBits then p
  else (2 ^ f.fractionBits + p % 2 ^ f.fractionBits) * 2 ^ (p / 2 ^ f.fractionBits - 1)

/-- The number of a magnitude, as if there were no infinities. -/
def value (p : Nat) : ℚ :=
  f.units p * 2 ^ f.lastPlace

variable {f}

theorem units_add {d k : Nat} (hle : k ≤ 2 * 2 ^ f.fractionBits)
    (hge : 0 < d → 2 ^ f.fractionBits ≤ k) : f.units (d * 2 ^ f.fractionBits + k) = k * 2 ^ d := by
  unfold units
  generalize hP : 2 ^ f.fractionBits = P at hle hge
  have hpos : 0 < P := hP ▸ Nat.two_pow_pos _
  rcases Nat.lt_or_ge k P with hk | hk
  · obtain rfl : d = 0 := by omega
    rw [Nat.zero_mul, Nat.zero_add, if_pos hk, Nat.pow_zero, Nat.mul_one]
  · rw [if_neg (by omega)]
    rcases Nat.lt_or_ge k (2 * P) with hk' | hk'
    · have hk0 : k / P = 1 := Nat.div_eq_of_lt_le (by omega) (by omega)
      have hmod : k % P = k - P := by
        rw [Nat.mod_eq_sub_mod hk, Nat.mod_eq_of_lt (by omega)]
      rw [Nat.mul_add_mod_self_right, hmod, Nat.add_sub_cancel' hk, Nat.add_comm _ k,
        Nat.add_mul_div_right _ _ hpos, hk0, Nat.add_sub_cancel_left]
    · -- the digits were rounded up into the next binade
      obtain rfl : k = 2 * P := by omega
      rw [← Nat.add_mul, Nat.mul_mod_left, Nat.mul_div_cancel _ hpos, Nat.add_zero,
        show d + 2 - 1 = d + 1 from rfl, Nat.pow_succ]
      ring

/-- Every magnitude has digits and a place for them. -/
theorem exists_digits (f : Format) (p : Nat) : ∃ d k, p = d * 2 ^ f.fractionBits + k ∧
    k < 2 * 2 ^ f.fractionBits ∧ (0 < d → 2 ^ f.fractionBits ≤ k) := by
  have hsplit := Nat.div_add_mod p (2 ^ f.fractionBits)
  have hlt := Nat.mod_lt p (Nat.two_pow_pos f.fractionBits)
  rw [Nat.mul_comm] at hsplit
  cases hd : p / 2 ^ f.fractionBits with
  | zero =>
    rw [hd] at hsplit
    exact ⟨0, p, by omega, by omega, fun h => absurd h (Nat.lt_irrefl 0)⟩
  | succ d =>
    rw [hd, Nat.succ_mul, Nat.add_assoc] at hsplit
    exact ⟨d, _, hsplit.symm, by omega, fun _ => Nat.le_add_right _ _⟩

/-- Magnitudes are in the order of their numbers. -/
theorem units_strictMono : StrictMono f.units := by
  refine strictMono_nat_of_lt_succ fun p => ?_
  obtain ⟨d, k, rfl, hlt, hge⟩ := f.exists_digits p
  rw [units_add hlt.le hge, Nat.add_assoc, units_add hlt fun h => Nat.le_succ_of_le (hge h)]
  exact Nat.mul_lt_mul_of_pos_right (Nat.lt_succ_self k) (Nat.two_pow_pos d)

theorem value_strictMono : StrictMono f.value := by
  intro p c h
  exact mul_lt_mul_of_pos_right (Nat.cast_lt.2 (units_strictMono h)) (zpow_pos two_pos _)

theorem value_nonneg (p : Nat) : 0 ≤ f.value p :=
  mul_nonneg (Nat.cast_nonneg _) (zpow_pos two_pos _).le

theorem value_zero : f.value 0 = 0 := by
  unfold value units
  rw [if_pos (Nat.two_pow_pos _), Nat.cast_zero, zero_mul]

theorem value_add {d k : Nat} (hle : k ≤ 2 * 2 ^ f.fractionBits)
    (hge : 0 < d → 2 ^ f.fractionBits ≤ k) :
    f.value (d * 2 ^ f.fractionBits + k) = k * 2 ^ (f.lastPlace + d) := by
  unfold value
  rw [units_add hle hge, zpow_add₀ two_ne_zero, zpow_natCast, Nat.cast_mul, Nat.cast_pow, Nat.cast_two]
  ring

/-! ## Rounding magnitudes -/

/-- The weight of the last digit that is kept of `m * 2 ^ e`. -/
def place (f : Format) (m : Nat) (e : Int) : Int :=
  max f.lastPlace (e + m.log2 - f.fractionBits)

/-- The pattern nearest to `m * 2 ^ e`, as if there were no infinities. -/
def unbounded (f : Format) (m : Nat) (e : Int) : Nat :=
  (f.place m e - f.lastPlace).toNat * 2 ^ f.fractionBits + nearestEven m (e - f.place m e)

theorem exists_place (f : Format) (m : Nat) (e : Int) : ∃ d : Nat,
    f.unbounded m e = d * 2 ^ f.fractionBits + nearestEven m (e - f.place m e) ∧
      f.place m e = f.lastPlace + d := by
  have hplace : f.lastPlace ≤ f.place m e := le_max_left _ _
  exact ⟨(f.place m e - f.lastPlace).toNat, rfl, by omega⟩

theorem roundMagnitude_eq {m : Nat} (hm : m ≠ 0) (e : Int) :
    f.roundMagnitude m e = min (f.unbounded m e) f.infinity := by
  have hkept : nearestEven m (e - f.place m e) = if f.place m e ≤ e then
      m * 2 ^ (e - f.place m e).toNat else shiftRightNearest m (f.place m e - e).toNat := by
    unfold nearestEven
    rw [Int.neg_sub]
    by_cases h : f.place m e ≤ e
    · rw [if_pos h, if_pos (Int.sub_nonneg.2 h)]
    · rw [if_neg h, if_neg (by omega)]
  unfold unbounded
  rw [hkept]
  exact if_neg hm

/-- The digits that are kept fill the significand, unless the number is subnormal. -/
theorem digits_bounds {m : Nat} (hm : m ≠ 0) (e : Int) :
    (m * 2 ^ (e - f.place m e) : ℚ) < 2 * 2 ^ f.fractionBits ∧
      (f.lastPlace < f.place m e → (2 : ℚ) ^ f.fractionBits ≤ m * 2 ^ (e - f.place m e)) := by
  have hlow : (2 : ℚ) ^ (m.log2 : ℤ) ≤ m := by
    rw [zpow_natCast]
    exact_mod_cast Nat.log2_self_le hm
  have hhigh : (m : ℚ) < 2 ^ (m.log2 + 1 : ℤ) := by
    have h : m < 2 ^ (m.log2 + 1) := Nat.lt_log2_self
    exact_mod_cast h
  have hpos : (0 : ℚ) < 2 ^ (e - f.place m e) := zpow_pos two_pos _
  constructor
  · calc (m * 2 ^ (e - f.place m e) : ℚ)
        < 2 ^ (m.log2 + 1 : ℤ) * 2 ^ (e - f.place m e) := mul_lt_mul_of_pos_right hhigh hpos
      _ = 2 ^ (m.log2 + 1 + (e - f.place m e)) := (zpow_add₀ two_ne_zero _ _).symm
      _ ≤ 2 ^ (1 + f.fractionBits : ℤ) := by
        refine zpow_le_zpow_right₀ one_le_two ?_
        unfold place
        omega
      _ = 2 * 2 ^ f.fractionBits := by rw [zpow_add₀ two_ne_zero, zpow_one, zpow_natCast]
  · intro hnormal
    calc (2 : ℚ) ^ f.fractionBits = 2 ^ (m.log2 + (e - f.place m e)) := by
          rw [← zpow_natCast]
          unfold place at hnormal ⊢
          congr 1
          omega
      _ = 2 ^ (m.log2 : ℤ) * 2 ^ (e - f.place m e) := zpow_add₀ two_ne_zero _ _
      _ ≤ m * 2 ^ (e - f.place m e) := mul_le_mul_of_nonneg_right hlow hpos.le

/-- Formats with both fields. -/
structure Proper (f : Format) : Prop where
  exponent : 0 < f.exponentBits
  fraction : 0 < f.fractionBits

theorem single_proper : single.Proper :=
  ⟨by decide, by decide⟩

theorem half_proper : half.Proper :=
  ⟨by decide, by decide⟩

/-- Among all magnitudes, none has a number nearer to `x`, and `p` is even if another one is as near. -/
structure Closest (f : Format) (x : ℚ) (p : Nat) : Prop where
  le (c : Nat) : |x - f.value p| ≤ |x - f.value c|
  even (c : Nat) : c ≠ p → |x - f.value p| = |x - f.value c| → Even p

theorem closest_unbounded (hf : f.Proper) {m : Nat} (hm : m ≠ 0) (e : Int) :
    f.Closest (m * 2 ^ e) (f.unbounded m e) := by
  obtain ⟨hlt, hge⟩ := f.digits_bounds hm e
  obtain ⟨lower, hrounds⟩ := exists_rounds m (e - f.place m e)
  obtain ⟨d, hd, hweight⟩ := f.exists_place m e
  have hscale : (m * 2 ^ e : ℚ) = m * 2 ^ (e - f.place m e) * 2 ^ f.place m e := by
    rw [mul_assoc, ← zpow_add₀ two_ne_zero, sub_add_cancel]
  -- the digits rounded down and up are digits of the format
  have hlower : lower + 1 ≤ 2 * 2 ^ f.fractionBits := by
    have h : (lower : ℚ) < 2 * 2 ^ f.fractionBits := lt_of_le_of_lt hrounds.lower_le hlt
    exact_mod_cast h
  have hnormal : 0 < d → 2 ^ f.fractionBits ≤ lower := fun h => by
    have h : (2 : ℚ) ^ f.fractionBits < lower + 1 :=
      lt_of_le_of_lt (hge (by omega)) hrounds.lt_upper
    have h : 2 ^ f.fractionBits < lower + 1 := by exact_mod_cast h
    omega
  have hdown : f.value (d * 2 ^ f.fractionBits + lower) = lower * 2 ^ f.place m e := by
    rw [hweight, value_add (by omega) hnormal]
  have hup : f.value (d * 2 ^ f.fractionBits + lower + 1) = (lower + 1) * 2 ^ f.place m e := by
    rw [hweight, Nat.add_assoc, value_add hlower fun h => Nat.le_succ_of_le (hnormal h), Nat.cast_succ]
  have hpow : (0 : ℚ) < 2 ^ f.place m e := zpow_pos two_pos _
  have hnear := nearest_of_neighbours f.value_strictMono (x := m * 2 ^ e) (p := f.unbounded m e)
    (i := d * 2 ^ f.fractionBits + lower)
    (by rw [hdown, hscale]; exact mul_le_mul_of_nonneg_right hrounds.lower_le hpow.le)
    (by rw [hup, hscale]; exact mul_lt_mul_of_pos_right hrounds.lt_upper hpow)
    (by
      rw [hdown, hup, hscale, hd, ← sub_mul, ← sub_mul, mul_le_mul_iff_left₀ hpow,
        mul_le_mul_iff_left₀ hpow]
      rcases hrounds.nearer with ⟨hk, h⟩ | ⟨hk, h⟩
      · exact .inl ⟨by rw [hk], by linarith⟩
      · exact .inr ⟨by rw [hk, Nat.add_assoc], by linarith⟩)
  refine ⟨fun c => (hnear c).1, fun c hc htie => ?_⟩
  have hmiddle := (hnear c).2 hc htie
  rw [hdown, hup, hscale, ← sub_mul, ← sub_mul, mul_left_inj' hpow.ne'] at hmiddle
  have heven : Even (d * 2 ^ f.fractionBits) :=
    (Nat.even_pow.2 ⟨even_two, hf.fraction.ne'⟩).mul_left d
  rw [hd]
  exact heven.add (hrounds.tie (by linarith))

/-- The rounded magnitude is the closest one, cut off at infinity. -/
theorem exists_closest (hf : f.Proper) (m : Nat) (e : Int) :
    ∃ p, f.Closest (m * 2 ^ e) p ∧ f.roundMagnitude m e = min p f.infinity := by
  by_cases hm : m = 0
  · subst hm
    refine ⟨0, ⟨fun c => ?_, fun c _ _ => Even.zero⟩, (Nat.zero_min _).symm⟩
    rw [Nat.cast_zero, zero_mul, value_zero, sub_zero, abs_zero]
    exact abs_nonneg _
  · exact ⟨_, closest_unbounded hf hm e, roundMagnitude_eq hm e⟩

/-- Digits that fit are kept as they are. -/
theorem value_unbounded {m : Nat} {e : Int} (hm : m ≠ 0) (hlt : m < 2 * 2 ^ f.fractionBits)
    (he : f.lastPlace ≤ e) : f.value (f.unbounded m e) = m * 2 ^ e := by
  have hlog : m.log2 < f.fractionBits + 1 :=
    (Nat.log2_lt hm).2 (by rw [Nat.pow_succ]; omega)
  have hplace : f.place m e ≤ e := by
    unfold place
    omega
  obtain ⟨d, hd, hweight⟩ := f.exists_place m e
  obtain ⟨hhigh, hlow⟩ := f.digits_bounds hm e
  have hdigits : (m * 2 ^ (e - f.place m e) : ℚ) = nearestEven m (e - f.place m e) := by
    unfold nearestEven
    rw [if_pos (Int.sub_nonneg.2 hplace), Nat.cast_mul, Nat.cast_pow, Nat.cast_two, ← zpow_natCast,
      Int.toNat_of_nonneg (Int.sub_nonneg.2 hplace)]
  rw [hdigits] at hhigh hlow
  have hle : nearestEven m (e - f.place m e) ≤ 2 * 2 ^ f.fractionBits :=
    Nat.le_of_lt (by exact_mod_cast hhigh)
  have hge : 0 < d → 2 ^ f.fractionBits ≤ nearestEven m (e - f.place m e) := fun h => by
    exact_mod_cast hlow (by omega)
  rw [hd, value_add hle hge, ← hweight, ← hdigits, mul_assoc, ← zpow_add₀ two_ne_zero, sub_add_cancel]

/-! ## Numbers of patterns -/

section Patterns

variable (f)

/-- The pattern without its sign. -/
def magnitude (bits : Nat) : Nat :=
  bits % f.signWeight

def isNegative (bits : Nat) : Bool :=
  bits / f.signWeight % 2 == 1

/-- The pattern is finite and stands for the number. -/
def Stands (bits : Nat) (q : ℚ) : Prop :=
  ∃ negative m e, f.decode bits = .finite negative m e ∧ exact negative m e = q

theorem signWeight_eq : f.signWeight = 2 ^ f.fractionBits * 2 ^ f.exponentBits := by
  rw [← Nat.pow_add, Nat.add_comm]
  rfl

theorem infinity_lt_signWeight : f.infinity < f.signWeight := by
  rw [signWeight_eq, Nat.mul_comm]
  exact Nat.mul_lt_mul_of_pos_right (Nat.sub_lt (Nat.two_pow_pos _) Nat.one_pos) (Nat.two_pow_pos _)

/-- Patterns above that of infinity are NaNs, and those below it are finite. -/
theorem decode_eq (bits : Nat) : f.decode bits =
    if f.magnitude bits < f.infinity then
      if f.magnitude bits < 2 ^ f.fractionBits then
        .finite (f.isNegative bits) (f.magnitude bits) f.lastPlace
      else .finite (f.isNegative bits) (2 ^ f.fractionBits + f.magnitude bits % 2 ^ f.fractionBits)
        (f.lastPlace + ((f.magnitude bits / 2 ^ f.fractionBits : ℕ) - 1))
    else if f.magnitude bits = f.infinity then .infinite (f.isNegative bits)
    else .nan (f.isNegative bits) (f.magnitude bits % 2 ^ f.fractionBits) := by
  have hexp : bits / 2 ^ f.fractionBits % 2 ^ f.exponentBits =
      f.magnitude bits / 2 ^ f.fractionBits := by
    unfold magnitude
    rw [signWeight_eq, Nat.mod_mul_right_div_self]
  have hfrac : bits % 2 ^ f.fractionBits = f.magnitude bits % 2 ^ f.fractionBits := by
    unfold magnitude
    rw [signWeight_eq, Nat.mod_mul_right_mod]
  have hfield : f.magnitude bits / 2 ^ f.fractionBits < 2 ^ f.exponentBits := by
    rw [← hexp]
    exact Nat.mod_lt _ (Nat.two_pow_pos _)
  have hdecode : f.decode bits =
      if bits / 2 ^ f.fractionBits % 2 ^ f.exponentBits = 2 ^ f.exponentBits - 1 then
        if bits % 2 ^ f.fractionBits = 0 then .infinite (f.isNegative bits)
        else .nan (f.isNegative bits) (bits % 2 ^ f.fractionBits)
      else if bits / 2 ^ f.fractionBits % 2 ^ f.exponentBits = 0 then
        .finite (f.isNegative bits) (bits % 2 ^ f.fractionBits) f.lastPlace
      else .finite (f.isNegative bits) (2 ^ f.fractionBits + bits % 2 ^ f.fractionBits)
        (f.lastPlace + ((bits / 2 ^ f.fractionBits % 2 ^ f.exponentBits : ℕ) - 1)) := rfl
  have hinf : f.infinity = (2 ^ f.exponentBits - 1) * 2 ^ f.fractionBits := rfl
  rw [hdecode, hexp, hfrac, hinf]
  generalize f.magnitude bits = p at hfield
  have hpos : 0 < 2 ^ f.fractionBits := Nat.two_pow_pos _
  by_cases h : p < (2 ^ f.exponentBits - 1) * 2 ^ f.fractionBits
  · rw [if_pos h, if_neg (Nat.ne_of_lt (Nat.div_lt_of_lt_mul (by rwa [Nat.mul_comm])))]
    by_cases hsub : p < 2 ^ f.fractionBits
    · rw [if_pos hsub, if_pos (Nat.div_eq_of_lt hsub), Nat.mod_eq_of_lt hsub]
    · rw [if_neg hsub, if_neg (Nat.div_pos (Nat.not_lt.1 hsub) hpos).ne']
  · have hfull : p / 2 ^ f.fractionBits = 2 ^ f.exponentBits - 1 :=
      le_antisymm (Nat.le_sub_one_of_lt hfield) ((Nat.le_div_iff_mul_le hpos).2 (Nat.not_lt.1 h))
    have hzero : p % 2 ^ f.fractionBits = 0 ↔ p = (2 ^ f.exponentBits - 1) * 2 ^ f.fractionBits := by
      have hsplit := Nat.div_add_mod p (2 ^ f.fractionBits)
      rw [hfull, Nat.mul_comm] at hsplit
      omega
    rw [if_neg h, if_pos hfull]
    by_cases heq : p % 2 ^ f.fractionBits = 0
    · rw [if_pos heq, if_pos (hzero.1 heq)]
    · rw [if_neg heq, if_neg fun h => heq (hzero.2 h)]

variable {f}

/-- A pattern below that of infinity has a significand and an exponent. -/
theorem decode_finite {bits : Nat} (h : f.magnitude bits < f.infinity) : ∃ m e,
    f.decode bits = .finite (f.isNegative bits) m e ∧ (m * 2 ^ e : ℚ) = f.value (f.magnitude bits) := by
  rw [decode_eq, if_pos h]
  unfold value units
  by_cases hsub : f.magnitude bits < 2 ^ f.fractionBits
  · rw [if_pos hsub, if_pos hsub]
    exact ⟨_, _, rfl, rfl⟩
  · have hpos : 0 < f.magnitude bits / 2 ^ f.fractionBits :=
      Nat.div_pos (Nat.not_lt.1 hsub) (Nat.two_pow_pos _)
    have hone : ((f.magnitude bits / 2 ^ f.fractionBits : ℕ) : ℤ) - 1 =
        ((f.magnitude bits / 2 ^ f.fractionBits - 1 : ℕ) : ℤ) := by omega
    rw [if_neg hsub, if_neg hsub]
    refine ⟨_, _, rfl, ?_⟩
    rw [hone, zpow_add₀ two_ne_zero, zpow_natCast]
    push_cast
    ring

theorem stands_iff {bits : Nat} {q : ℚ} : f.Stands bits q ↔ f.magnitude bits < f.infinity ∧
    q = (if f.isNegative bits then -1 else 1) * f.value (f.magnitude bits) := by
  constructor
  · rintro ⟨negative, m, e, hd, rfl⟩
    have hlt : f.magnitude bits < f.infinity := by
      by_contra h
      rw [decode_eq, if_neg h] at hd
      split at hd <;> cases hd
    obtain ⟨m', e', hd', hvalue⟩ := decode_finite hlt
    rw [hd'] at hd
    cases hd
    rw [← hvalue]
    exact ⟨hlt, rfl⟩
  · rintro ⟨hlt, rfl⟩
    obtain ⟨m, e, hd, hvalue⟩ := decode_finite hlt
    rw [← hvalue]
    exact ⟨_, m, e, hd, rfl⟩

/-- Finite patterns have digits that fit, no digit past the last place, and a bound. -/
theorem finite_of_decode {bits : Nat} {negative : Bool} {m : Nat} {e : Int}
    (h : f.decode bits = .finite negative m e) : m < 2 * 2 ^ f.fractionBits ∧ f.lastPlace ≤ e ∧
      (m * 2 ^ e : ℚ) < f.value f.infinity := by
  have hlt : f.magnitude bits < f.infinity := (stands_iff.1 ⟨_, m, e, h, rfl⟩).1
  have hvalue : (m * 2 ^ e : ℚ) < f.value f.infinity := by
    obtain ⟨m', e', hd, hvalue⟩ := decode_finite hlt
    rw [hd] at h
    cases h
    rw [hvalue]
    exact f.value_strictMono hlt
  have hmod := Nat.mod_lt (f.magnitude bits) (Nat.two_pow_pos f.fractionBits)
  rw [decode_eq, if_pos hlt] at h
  split at h
  · cases h
    exact ⟨by omega, le_refl _, hvalue⟩
  · rename_i hsub
    have hpos : 0 < f.magnitude bits / 2 ^ f.fractionBits :=
      Nat.div_pos (Nat.not_lt.1 hsub) (Nat.two_pow_pos _)
    cases h
    exact ⟨by omega, by omega, hvalue⟩

theorem Stands.abs_eq {bits : Nat} {q : ℚ} (h : f.Stands bits q) :
    |q| = f.value (f.magnitude bits) := by
  rw [(stands_iff.1 h).2]
  cases f.isNegative bits <;> simp [abs_of_nonneg (f.value_nonneg _)]

theorem magnitude_withSign (negative : Bool) {p : Nat} (hp : p < f.signWeight) :
    f.magnitude (f.withSign negative p) = p := by
  unfold magnitude withSign
  cases negative with
  | false => exact Nat.mod_eq_of_lt hp
  | true => rw [if_pos rfl, Nat.add_mod_left, Nat.mod_eq_of_lt hp]

theorem isNegative_withSign (negative : Bool) {p : Nat} (hp : p < f.signWeight) :
    f.isNegative (f.withSign negative p) = negative := by
  unfold isNegative withSign
  cases negative with
  | false => rw [if_neg Bool.false_ne_true, Nat.div_eq_of_lt hp]; rfl
  | true => rw [if_pos rfl, Nat.add_div_left _ (Nat.zero_lt_of_lt hp), Nat.div_eq_of_lt hp]; rfl

theorem stands_withSign (negative : Bool) {p : Nat} (hp : p < f.infinity) :
    f.Stands (f.withSign negative p) ((if negative then -1 else 1) * f.value p) := by
  have hlt : p < f.signWeight := lt_trans hp f.infinity_lt_signWeight
  rw [stands_iff, magnitude_withSign negative hlt, isNegative_withSign negative hlt]
  exact ⟨hp, rfl⟩

theorem decode_withSign_infinity (negative : Bool) :
    f.decode (f.withSign negative f.infinity) = .infinite negative := by
  have hlt := f.infinity_lt_signWeight
  rw [decode_eq, magnitude_withSign negative hlt, isNegative_withSign negative hlt,
    if_neg (Nat.lt_irrefl _), if_pos rfl]

end Patterns

/-! ## Rounding numbers -/

/-- Half a unit past the largest finite number. -/
def overflow (f : Format) : ℚ :=
  (f.value (f.infinity - 1) + f.value f.infinity) / 2

/-- The pattern that a number is rounded to. -/
inductive Nearest (f : Format) (bits : Nat) (x : ℚ) : Prop
  | finite {y : ℚ} (stands : f.Stands bits y) (bound : |x| < f.overflow)
      (le : ∀ c z, f.Stands c z → |x - y| ≤ |x - z|)
      (even : ∀ c z, f.Stands c z → z ≠ y → |x - y| = |x - z| → Even bits)
  | infinite {negative : Bool} (decode : f.decode bits = .infinite negative)
      (bound : f.overflow ≤ if negative then -x else x)

theorem Proper.infinity_pos (hf : f.Proper) : 0 < f.infinity :=
  Nat.mul_pos (Nat.sub_pos_of_lt (Nat.one_lt_two_pow hf.exponent.ne')) (Nat.two_pow_pos _)

theorem Proper.even_infinity (hf : f.Proper) : Even f.infinity :=
  (Nat.even_pow.2 ⟨even_two, hf.fraction.ne'⟩).mul_left _

theorem Proper.even_signWeight (hf : f.Proper) : Even f.signWeight :=
  Nat.even_pow.2 ⟨even_two, by have := hf.fraction; omega⟩

theorem Closest.overflow_le {x : ℚ} {p : Nat} (hf : f.Proper) (h : f.Closest x p)
    (hp : f.infinity ≤ p) : f.overflow ≤ x := by
  have hlast : f.value (f.infinity - 1) < f.value f.infinity :=
    f.value_strictMono (Nat.sub_lt hf.infinity_pos Nat.one_pos)
  have hge : f.value f.infinity ≤ f.value p := f.value_strictMono.monotone hp
  have hle := h.le (f.infinity - 1)
  unfold overflow
  by_contra hlt
  rw [abs_sub_comm, abs_of_nonneg (by linarith : 0 ≤ f.value p - x)] at hle
  rcases abs_cases (x - f.value (f.infinity - 1)) with ⟨habs, -⟩ | ⟨habs, -⟩ <;> linarith

theorem Closest.lt_overflow {x : ℚ} {p : Nat} (hf : f.Proper) (h : f.Closest x p)
    (hp : p < f.infinity) : x < f.overflow := by
  have hlast : f.value p ≤ f.value (f.infinity - 1) := f.value_strictMono.monotone (by omega)
  have hinf : f.value p < f.value f.infinity := f.value_strictMono hp
  have hle := h.le f.infinity
  unfold overflow
  by_contra hge
  -- infinity would be as near, and the pattern before it is odd
  rw [abs_of_nonneg (by linarith : 0 ≤ x - f.value p)] at hle
  have heq : x - f.value p = |x - f.value f.infinity| := by
    refine le_antisymm hle ?_
    rcases abs_cases (x - f.value f.infinity) with ⟨habs, -⟩ | ⟨habs, -⟩ <;> linarith
  have hmiddle : f.value p = f.value (f.infinity - 1) := by
    rcases abs_cases (x - f.value f.infinity) with ⟨habs, -⟩ | ⟨habs, -⟩ <;> linarith
  have hpred : p = f.infinity - 1 := f.value_strictMono.injective hmiddle
  have heven : Even p := h.even f.infinity hp.ne'
    (by rw [abs_of_nonneg (by linarith : 0 ≤ x - f.value p), heq])
  have hodd := hf.even_infinity
  rw [Nat.even_iff] at heven hodd
  omega

/-- The opposite number is as near as the closest one only if both are zero. -/
theorem Closest.value_eq_zero {x : ℚ} {p : Nat} (h : f.Closest x p) (hx : 0 ≤ x)
    (htie : |x - f.value p| = x + f.value p) : f.value p = 0 := by
  have hle := h.le 0
  rw [f.value_zero, sub_zero, abs_of_nonneg hx] at hle
  linarith [f.value_nonneg p]

/-- A sign in front of the closest magnitude. -/
theorem Closest.nearest {x : ℚ} {p : Nat} (hf : f.Proper) (h : f.Closest x p) (hx : 0 ≤ x)
    (negative : Bool) : f.Nearest (f.withSign negative (min p f.infinity))
      ((if negative then -1 else 1) * x) := by
  rcases Nat.lt_or_ge p f.infinity with hp | hp
  · rw [min_eq_left hp.le]
    have hstands := stands_withSign negative hp
    generalize hsign : (if negative then -1 else 1 : ℚ) = sign at hstands ⊢
    have habs : |sign| = 1 := by
      rw [← hsign]
      cases negative <;> simp
    have hmul {v : ℚ} (hv : 0 ≤ v) : |sign * v| = v := by
      rw [abs_mul, habs, one_mul, abs_of_nonneg hv]
    have hdist : |sign * x - sign * f.value p| = |x - f.value p| := by
      rw [← mul_sub, abs_mul, habs, one_mul]
    -- a number is no nearer than its magnitude
    have hother {c : Nat} {z : ℚ} (hc : f.Stands c z) :
        |x - f.value (f.magnitude c)| ≤ |sign * x - z| := by
      have hle := abs_abs_sub_abs_le (sign * x) z
      rwa [hmul hx, hc.abs_eq] at hle
    refine .finite hstands ?_ (fun c z hc => ?_) fun c z hc hne htie => ?_
    · rw [hmul hx]
      exact h.lt_overflow hf hp
    · rw [hdist]
      exact (h.le _).trans (hother hc)
    · rw [hdist] at htie
      have heven : Even p := by
        by_cases hcp : f.magnitude c = p
        · have hz : z = -(sign * f.value p) := by
            have hz := hc.abs_eq
            rw [hcp, ← hmul (f.value_nonneg p)] at hz
            exact (abs_eq_abs.1 hz).resolve_left hne
          rw [hz, sub_neg_eq_add, ← mul_add, hmul (add_nonneg hx (f.value_nonneg p))] at htie
          rw [hz, h.value_eq_zero hx htie, mul_zero, neg_zero] at hne
          exact absurd rfl hne
        · exact h.even _ hcp (le_antisymm (h.le _) (htie ▸ hother hc))
      unfold withSign
      cases negative with
      | false => exact heven
      | true => exact hf.even_signWeight.add heven
  · rw [min_eq_right hp]
    refine .infinite (decode_withSign_infinity negative) ?_
    have hle := h.overflow_le hf hp
    cases negative <;> simpa using hle

/-- Rounding finds the nearest pattern. -/
theorem nearest_round (hf : f.Proper) (negative : Bool) (m : Nat) (e : Int) :
    f.Nearest (f.round negative m e) (exact negative m e) := by
  obtain ⟨p, hp, hround⟩ := exists_closest hf m e
  unfold round
  rw [hround]
  exact hp.nearest hf (mul_nonneg (Nat.cast_nonneg m) (zpow_pos two_pos e).le) negative

/-- Numbers of the format are rounded to themselves. -/
theorem Nearest.stands {bits c : Nat} {x : ℚ} (hf : f.Proper) (h : f.Nearest bits x)
    (hc : f.Stands c x) : f.Stands bits x := by
  cases h with
  | finite stands _ le _ =>
    have hzero := le c x hc
    rw [sub_self, abs_zero] at hzero
    rwa [sub_eq_zero.1 (abs_nonpos_iff.1 hzero)]
  | @infinite negative _ bound =>
    have hle : f.value (f.magnitude c) ≤ f.value (f.infinity - 1) :=
      f.value_strictMono.monotone (Nat.le_sub_one_of_lt (stands_iff.1 hc).1)
    have hlast : f.value (f.infinity - 1) < f.value f.infinity :=
      f.value_strictMono (Nat.sub_lt hf.infinity_pos Nat.one_pos)
    have habs : (if negative then -x else x) ≤ |x| := by
      cases negative with
      | false => exact le_abs_self x
      | true => exact neg_le_abs x
    rw [hc.abs_eq] at habs
    unfold overflow at bound
    linarith

/-- Numbers with a significand that fits are rounded to themselves. -/
theorem stands_round (hf : f.Proper) (negative : Bool) {m k : Nat} {e g : Int}
    (hk : k < 2 * 2 ^ f.fractionBits) (hg : f.lastPlace ≤ g) (heq : (m * 2 ^ e : ℚ) = k * 2 ^ g)
    (hbound : (m * 2 ^ e : ℚ) < f.value f.infinity) :
    f.Stands (f.round negative m e) (exact negative m e) := by
  have hvalue : ∃ p, f.value p = m * 2 ^ e := by
    by_cases hzero : k = 0
    · exact ⟨0, by rw [heq, hzero, Nat.cast_zero, zero_mul, f.value_zero]⟩
    · exact ⟨_, (value_unbounded hzero hk hg).trans heq.symm⟩
  obtain ⟨p, hp⟩ := hvalue
  have hlt : p < f.infinity := f.value_strictMono.lt_iff_lt.1 (hp ▸ hbound)
  refine (nearest_round hf negative m e).stands hf (c := f.withSign negative p) ?_
  have h := stands_withSign negative hlt
  rwa [hp] at h

theorem round_lt (f : Format) (negative : Bool) (m : Nat) (e : Int) :
    f.round negative m e < 2 * f.signWeight := by
  have hle : f.roundMagnitude m e ≤ f.infinity := by
    unfold roundMagnitude
    split
    · exact Nat.zero_le _
    · exact Nat.min_le_right _ _
  have hlt := f.infinity_lt_signWeight
  unfold round withSign
  split <;> omega

end Format

end TextureLift.Number
