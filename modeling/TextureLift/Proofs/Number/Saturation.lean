import Mathlib.Algebra.Group.Nat.Defs
import Mathlib.Data.Nat.Bitwise
import TextureLift.Proofs.Number.Exact
import TextureLift.Proofs.Semantics.Register

/-!
# Saturating conversion of numbers

What a number becomes in an integer encoding, as exact arithmetic. `Datum.saturated` rounds a number to
the nearest integer, ties away from zero, and brings it into an interval; infinities become its ends and
a NaN its lower end. The encodings compute it on bit patterns:

    k.range? = some (lo, hi) → k.integer (k.encodeNumber x) = (decode x).saturated lo hi

The interval holds before the conversion to a word, so the conversion has nothing left to saturate
(`Encoding.stands_bounded`).
-/

namespace TextureLift

namespace Number

/-- The integer nearest to a number, ties away from zero, brought into the interval from `lo` to `hi`. A
NaN becomes `lo`. -/
def Datum.saturated (lo hi : ℤ) : Datum → ℤ
  | .nan .. => lo
  | .infinite negative => if negative then lo else hi
  | .finite negative m e => max lo (min hi (roundHalfAway (exact negative m e)))

/-- Where a datum lies among the numbers, between two ends. A NaN lies nowhere. -/
def Datum.position? : Datum → Option (WithBot (WithTop ℚ))
  | .nan .. => none
  | .infinite negative => some (if negative then ⊥ else ((⊤ : WithTop ℚ) : WithBot (WithTop ℚ)))
  | .finite negative m e => some ((exact negative m e : WithTop ℚ) : WithBot (WithTop ℚ))

theorem Datum.saturated_mem {lo hi : ℤ} (h : lo ≤ hi) (d : Datum) :
    lo ≤ d.saturated lo hi ∧ d.saturated lo hi ≤ hi := by
  cases d with
  | nan negative fraction => exact ⟨le_refl lo, h⟩
  | infinite negative =>
    unfold saturated
    cases negative with
    | false => exact ⟨h, le_refl hi⟩
    | true => exact ⟨le_refl lo, h⟩
  | finite negative m e =>
    show lo ≤ max lo (min hi _) ∧ max lo (min hi _) ≤ hi
    omega

/-- Larger numbers become larger integers. -/
theorem Datum.saturated_mono {lo hi : ℤ} (h : lo ≤ hi) {d d' : Datum} {p p' : WithBot (WithTop ℚ)}
    (hd : d.position? = some p) (hd' : d'.position? = some p') (hp : p ≤ p') :
    d.saturated lo hi ≤ d'.saturated lo hi := by
  have hmem := d.saturated_mem h
  have hmem' := d'.saturated_mem h
  cases d with
  | nan negative fraction => cases hd
  | infinite negative =>
    cases negative with
    | true => exact hmem'.1
    | false =>
      obtain rfl := Option.some.inj hd
      cases d' with
      | nan negative fraction => cases hd'
      | infinite negative =>
        obtain rfl := Option.some.inj hd'
        cases negative with
        | false => exact le_refl hi
        | true => simp at hp
      | finite negative m e =>
        obtain rfl := Option.some.inj hd'
        simp at hp
  | finite negative m e =>
    obtain rfl := Option.some.inj hd
    cases d' with
    | nan negative fraction => cases hd'
    | infinite negative =>
      obtain rfl := Option.some.inj hd'
      cases negative with
      | false => exact hmem.2
      | true => simp at hp
    | finite negative' m' e' =>
      obtain rfl := Option.some.inj hd'
      have hround := roundHalfAway_mono (WithTop.coe_le_coe.1 (WithBot.coe_le_coe.1 hp))
      show max lo (min hi _) ≤ max lo (min hi _)
      omega

namespace Single

variable {a b : UInt32} {q r : ℚ}

/-! ## Clamping -/

theorem Stands.maximum (ha : Stands a q) (hb : Stands b r) : Stands (maximum a b) (max q r) := by
  unfold Single.maximum
  rw [hb.not_isNaN, ha.not_isNaN, if_neg Bool.false_ne_true, if_neg Bool.false_ne_true]
  by_cases h : rank b < rank a
  · rw [if_pos h, max_eq_left ((rank_lt_iff hb ha).1 h).le]
    exact ha
  · rw [if_neg h, max_eq_right (not_lt.1 fun hlt => h ((rank_lt_iff hb ha).2 hlt))]
    exact hb

theorem Stands.minimum (ha : Stands a q) (hb : Stands b r) : Stands (minimum a b) (min q r) := by
  unfold Single.minimum
  rw [hb.not_isNaN, ha.not_isNaN, if_neg Bool.false_ne_true, if_neg Bool.false_ne_true]
  by_cases h : rank a < rank b
  · rw [if_pos h, min_eq_left ((rank_lt_iff ha hb).1 h).le]
    exact ha
  · rw [if_neg h, min_eq_right (not_lt.1 fun hlt => h ((rank_lt_iff ha hb).2 hlt))]
    exact hb

theorem isNaN_iff (a : UInt32) : isNaN a = true ↔ 2139095040 < magnitude a := by
  unfold isNaN
  rw [decode_eq]
  by_cases h : magnitude a < 2139095040
  · rw [if_pos h]
    split <;> rename_i hd
    · split at hd <;> cases hd
    · simp
      omega
  · rw [if_neg h]
    by_cases heq : magnitude a = 2139095040
    · rw [if_pos heq]
      simp
      omega
    · rw [if_neg heq]
      simp
      omega

/-- A NaN stays one when it is made quiet. -/
theorem isNaN_quiet (h : isNaN a = true) : isNaN (quiet a) = true := by
  rw [isNaN_iff] at h ⊢
  have hmag : magnitude (quiet a) = magnitude a ||| 4194304 := by
    unfold quiet magnitude
    rw [UInt32.toNat_or, show 2147483648 = 2 ^ 31 from rfl, Nat.or_mod_two_pow]
    rfl
  rw [hmag]
  exact lt_of_lt_of_le h Nat.left_le_or

/-- A pattern that was rounded and clamped stands for the saturated integer. -/
theorem stands_clamp {l h : UInt32} {lo hi : ℤ} (hl : Stands l lo) (hh : Stands h hi) (hle : lo ≤ hi)
    (x : UInt32) : Stands (clamp (roundAway x) l h) ((decode x).saturated lo hi : ℤ) := by
  have hlow : Stands (minimum l h) lo := by
    have hmin := hl.minimum hh
    rwa [min_eq_left (Int.cast_le.2 hle)] at hmin
  unfold clamp
  cases hx : decode x with
  | nan negative fraction =>
    have hquiet : roundAway x = quiet x := by
      unfold roundAway
      rw [hx]
    have hnan : isNaN (quiet x) = true := by
      apply isNaN_quiet
      unfold isNaN
      rw [hx]
    unfold maximum
    rw [hquiet, hl.not_isNaN, if_neg Bool.false_ne_true, if_pos hnan]
    exact hlow
  | infinite negative =>
    have hround : roundAway x = x := by
      unfold roundAway
      rw [hx]
    have hnan : isNaN x = false := by
      unfold isNaN
      rw [hx]
    have hrank := rank_infinite hx hl
    have hrank' := rank_infinite hx hh
    unfold maximum
    rw [hround, hl.not_isNaN, hnan, if_neg Bool.false_ne_true, if_neg Bool.false_ne_true]
    cases negative with
    | true =>
      rw [if_neg (by rw [if_pos rfl] at hrank; omega)]
      exact hlow
    | false =>
      rw [if_neg Bool.false_ne_true] at hrank hrank'
      rw [if_pos hrank]
      unfold minimum
      rw [hh.not_isNaN, hnan, if_neg Bool.false_ne_true, if_neg Bool.false_ne_true,
        if_neg (by omega)]
      exact hh
  | finite negative m e =>
    have hround : Stands (roundAway x) (roundHalfAway (exact negative m e)) :=
      Stands.roundAway ⟨negative, m, e, hx, rfl⟩
    have hclamp := (hround.maximum hl).minimum hh
    have hcast : min (max (roundHalfAway (exact negative m e) : ℚ) lo) hi =
        ((max lo (min hi (roundHalfAway (exact negative m e))) : ℤ) : ℚ) := by
      rw [← Int.cast_max, ← Int.cast_min, Int.cast_inj]
      omega
    rw [hcast] at hclamp
    exact hclamp

/-! ## Conversion to words -/

/-- The integer part of a number that is an integer. -/
theorem truncate_of_exact {negative : Bool} {m : Nat} {e : Int} {n : ℤ} (h : exact negative m e = n) :
    truncate m e = n.natAbs ∧ if negative then n ≤ 0 else 0 ≤ n := by
  have hmag : (m * 2 ^ e : ℚ) = n.natAbs ∧ if negative then n ≤ 0 else 0 ≤ n := by
    have hnonneg : (0 : ℚ) ≤ m * 2 ^ e := mul_nonneg (Nat.cast_nonneg m) (zpow_pos (by norm_num) e).le
    unfold exact at h
    rw [Nat.cast_natAbs]
    cases negative with
    | false =>
      simp only [Bool.false_eq_true, if_false, one_mul] at h ⊢
      have hn : 0 ≤ n := by
        rw [h] at hnonneg
        exact_mod_cast hnonneg
      rw [h, abs_of_nonneg hn]
      exact ⟨rfl, hn⟩
    | true =>
      simp only [if_true, neg_mul, one_mul] at h ⊢
      have hn : n ≤ 0 := by
        rw [← Int.cast_nonpos (R := ℚ), ← h]
        linarith
      rw [abs_of_nonpos hn, Int.cast_neg, ← h, neg_neg]
      exact ⟨rfl, hn⟩
  refine ⟨?_, hmag.2⟩
  unfold truncate
  by_cases he : 0 ≤ e
  · rw [if_pos he]
    have hpow : (2 : ℚ) ^ e = ((2 ^ e.toNat : ℕ) : ℚ) := by
      push_cast
      rw [← zpow_natCast, Int.toNat_of_nonneg he]
    have h1 := hmag.1
    rw [hpow] at h1
    exact_mod_cast h1
  · rw [if_neg he]
    have hpow : (2 : ℚ) ^ e * ((2 ^ (-e).toNat : ℕ) : ℚ) = 1 := by
      push_cast
      rw [← zpow_natCast, Int.toNat_of_nonneg (by omega), ← zpow_add₀ (by norm_num), add_neg_cancel,
        zpow_zero]
    have hm : (m : ℚ) = ((n.natAbs * 2 ^ (-e).toNat : ℕ) : ℚ) := by
      rw [Nat.cast_mul, ← hmag.1, mul_assoc, hpow, mul_one]
    have hm : m = n.natAbs * 2 ^ (-e).toNat := by exact_mod_cast hm
    rw [hm]
    exact Nat.mul_div_cancel _ (Nat.two_pow_pos _)

theorem toNat_toUnsigned {n : ℤ} (h : Stands a n) (h0 : 0 ≤ n) (h1 : n ≤ 4294967295) :
    ((toUnsigned a).toNat : ℤ) = n := by
  obtain ⟨negative, m, e, hd, he⟩ := h
  obtain ⟨htruncate, hsign⟩ := truncate_of_exact he
  unfold toUnsigned
  rw [hd]
  dsimp only
  cases negative with
  | true =>
    rw [if_pos rfl] at hsign ⊢
    rw [UInt32.toNat_zero]
    omega
  | false =>
    rw [if_neg Bool.false_ne_true, htruncate, UInt32.toNat_ofNat']
    omega

theorem toInt_toInt32 (w : UInt32) : w.toInt32.toInt =
    if w.toNat < 2147483648 then (w.toNat : ℤ) else w.toNat - 4294967296 := by
  show w.toBitVec.toInt = _
  rw [BitVec.toInt_eq_toNat_cond]
  show (if 2 * w.toNat < 4294967296 then (w.toNat : ℤ) else w.toNat - 4294967296) = _
  split <;> split <;> omega

theorem toInt_toSigned {n : ℤ} (h : Stands a n) (h0 : -2147483648 ≤ n) (h1 : n ≤ 2147483647) :
    (toSigned a).toInt32.toInt = n := by
  obtain ⟨negative, m, e, hd, he⟩ := h
  obtain ⟨htruncate, hsign⟩ := truncate_of_exact he
  unfold toSigned
  rw [hd]
  dsimp only
  cases negative with
  | true =>
    rw [if_pos rfl] at hsign ⊢
    have hsize : UInt32.size = 4294967296 := rfl
    rw [htruncate, toInt_toInt32, UInt32.toNat_neg, UInt32.toNat_ofNat', hsize]
    omega
  | false =>
    rw [if_neg Bool.false_ne_true] at hsign ⊢
    rw [htruncate, toInt_toInt32, UInt32.toNat_ofNat']
    omega

end Single

end Number

/-! ## Encodings -/

namespace Encoding

open Number Single

variable {k : Encoding} {lo hi : ℤ}

/-- The integer that a word stands for. -/
def integer (k : Encoding) (w : UInt32) : ℤ :=
  if k.isSigned then w.toInt32.toInt else w.toNat

/-- The integer is one of so many bits. -/
def Fits (k : Encoding) (n : ℤ) : Prop :=
  if k.isSigned then -2 ^ (k.bits.toNat - 1) ≤ n ∧ n < 2 ^ (k.bits.toNat - 1)
  else 0 ≤ n ∧ n < 2 ^ k.bits.toNat

/-- A number, rounded and brought into an interval as a pattern. -/
def bounded (lo hi : ℤ) (x : UInt32) : UInt32 :=
  clamp (roundAway x) (ofInt lo) (ofInt hi)

/-- The ends of the intervals are exact, and all that lies between them fits. -/
theorem range_exact (h : k.range? = some (lo, hi)) :
    Stands (ofInt lo) lo ∧ Stands (ofInt hi) hi ∧ lo ≤ hi ∧ ∀ n, lo ≤ n → n ≤ hi → k.Fits n := by
  cases k with
  | f32 | f16 | c10 => cases h
  | u8 | s8 | u16 | s16 =>
    cases h
    refine ⟨stands_ofInt_of_lt (by decide), stands_ofInt_of_lt (by decide), by decide,
      fun n h0 h1 => ?_⟩
    simp [Fits, isSigned, bits]
    omega
  | u32 =>
    cases h
    refine ⟨stands_ofInt_of_lt (by decide), stands_ofInt (k := 16777215) (j := 8) (by decide)
      (by decide) (by decide), by decide, fun n h0 h1 => ?_⟩
    simp [Fits, isSigned, bits]
    omega
  | s32 =>
    cases h
    refine ⟨stands_ofInt (k := 1) (j := 31) (by decide) (by decide) (by decide),
      stands_ofInt (k := 16777215) (j := 7) (by decide) (by decide) (by decide), by decide,
      fun n h0 h1 => ?_⟩
    simp [Fits, isSigned, bits]
    omega

theorem encodeNumber_eq (h : k.range? = some (lo, hi)) (x : UInt32) :
    k.encodeNumber x = if k.isSigned then toSigned (bounded lo hi x) else toUnsigned (bounded lo hi x) := by
  cases k <;> cases h <;> rfl

/-- What is converted to a word is an integer in range already. -/
theorem stands_bounded (h : k.range? = some (lo, hi)) (x : UInt32) :
    Stands (bounded lo hi x) ((decode x).saturated lo hi : ℤ) := by
  obtain ⟨hl, hh, hle, -⟩ := range_exact h
  exact stands_clamp hl hh hle x

/-- Encoded numbers are the saturated integers. -/
theorem integer_encodeNumber (h : k.range? = some (lo, hi)) (x : UInt32) :
    k.integer (k.encodeNumber x) = (decode x).saturated lo hi := by
  have hstands := stands_bounded h x
  obtain ⟨-, -, hle, hfits⟩ := range_exact h
  obtain ⟨hlow, hhigh⟩ := (decode x).saturated_mem hle
  have hfit := hfits _ hlow hhigh
  have hbits : 1 ≤ k.bits.toNat ∧ k.bits.toNat ≤ 32 := by cases k <;> decide
  unfold integer
  rw [encodeNumber_eq h]
  unfold Fits at hfit
  cases hs : k.isSigned with
  | true =>
    rw [hs, if_pos rfl] at hfit
    have hpow : (2 : ℤ) ^ (k.bits.toNat - 1) ≤ 2 ^ 31 := pow_le_pow_right₀ (by decide) (by omega)
    rw [if_pos rfl, if_pos rfl]
    exact toInt_toSigned hstands (by omega) (by omega)
  | false =>
    rw [hs, if_neg Bool.false_ne_true] at hfit
    have hpow : (2 : ℤ) ^ k.bits.toNat ≤ 2 ^ 32 := pow_le_pow_right₀ (by decide) (by omega)
    rw [if_neg Bool.false_ne_true, if_neg Bool.false_ne_true]
    exact toNat_toUnsigned hstands (by omega) (by omega)

end Encoding

end TextureLift
