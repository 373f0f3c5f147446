import TextureLift.Proofs.Machine.BitField
import TextureLift.Proofs.Number.Saturation

/-!
# Numbers in lanes

What the lanes of a word stand for, as exact numbers. An integer lane is read as the pattern nearest to
its integer. Lanes of at most 16 bits are exact, and what was read from one is written back as it was:

    k.integer (k.encodeNumber (k.decodeLane w lane)) = k.laneInteger w lane

Fixed-point lanes count in steps of 1/255. That number has no pattern, so the step is rounded first and
then the product (`nearest_fixedStep`, `nearest_decodeLane_c10`).
-/

namespace TextureLift.Encoding

open Number Single

variable {k : Encoding} {w lane : UInt32}

/-- The integer in the field of a lane. -/
def laneInteger (k : Encoding) (w lane : UInt32) : ℤ :=
  if k.isSigned then (BitField.extractSigned w (lane * k.bits) k.bits).toInt32.toInt
  else (BitField.extract w (lane * k.bits) k.bits).toNat

theorem laneInteger_fits (hl : lane < k.lanesPerComponent) : k.Fits (k.laneInteger w lane) := by
  have hbits : k.bits.toNat ≤ 32 := by cases k <;> decide
  have hoffset : (lane * k.bits).toNat < 32 := UInt32.lt_iff_toNat_lt.1 (offset_lt hl)
  unfold Fits laneInteger
  cases k.isSigned with
  | true =>
    rw [if_pos rfl, if_pos rfl, BitField.toInt_extractSigned hoffset hbits]
    exact ⟨BitVec.le_toInt _, BitVec.toInt_lt⟩
  | false =>
    rw [if_neg Bool.false_ne_true, if_neg Bool.false_ne_true, BitField.toNat_extract hoffset]
    refine ⟨Int.natCast_nonneg _, ?_⟩
    exact_mod_cast Nat.mod_lt _ (Nat.two_pow_pos _)

/-! ## Integers -/

/-- The field of the whole word is the word. -/
theorem extract_whole (w : UInt32) : BitField.extract w 0 32 = w := by
  refine BitField.eq_of_testBit fun j => ?_
  rw [BitField.testBit_extract (by decide)]
  by_cases hj : j < 32
  · simp [hj]
  · simp [hj, BitField.testBit_of_ge w (Nat.le_of_not_lt hj)]

theorem decodeLane_integer (hk : k.isInteger = true) (hl : lane < k.lanesPerComponent) :
    k.decodeLane w lane = if k.isSigned
      then ofSigned (BitField.extractSigned w (lane * k.bits) k.bits)
      else ofUnsigned (BitField.extract w (lane * k.bits) k.bits) := by
  cases k with
  | f32 | f16 | c10 => cases hk
  | u8 | s8 | u16 | s16 => rfl
  | u32 | s32 =>
    obtain rfl : lane = 0 := by
      rw [UInt32.lt_iff_toNat_lt] at hl
      exact UInt32.toNat_inj.1 (Nat.lt_one_iff.1 hl)
    simp [decodeLane, isSigned, bits, BitField.extractSigned, BitField.signExtend, extract_whole]

/-- Integers are read as the patterns nearest to them. -/
theorem nearest_decodeLane (hk : k.isInteger = true) (hl : lane < k.lanesPerComponent) :
    Format.single.Nearest (k.decodeLane w lane).toNat (k.laneInteger w lane) := by
  rw [decodeLane_integer hk hl]
  unfold laneInteger
  cases k.isSigned with
  | true => exact nearest_ofSigned _
  | false => exact nearest_ofUnsigned _

/-- Narrow integers are read as they are. -/
theorem stands_decodeLane (hk : k.isInteger = true) (hl : lane < k.lanesPerComponent)
    (hbits : k.bits.toNat ≤ 16) : Stands (k.decodeLane w lane) (k.laneInteger w lane) := by
  have hfits := laneInteger_fits (w := w) hl
  have hsmall : (k.laneInteger w lane).natAbs < 2 ^ 24 := by
    have hpow : (2 : ℤ) ^ k.bits.toNat ≤ 2 ^ 16 := pow_le_pow_right₀ (by decide) hbits
    have hpow' : (2 : ℤ) ^ (k.bits.toNat - 1) ≤ 2 ^ 16 := pow_le_pow_right₀ (by decide) (by omega)
    unfold Fits at hfits
    split at hfits <;> omega
  exact (nearest_decodeLane hk hl).stands Format.single_proper (stands_ofInt_of_lt hsmall)

/-- Narrow integers are written back as they were read. -/
theorem integer_encodeNumber_decodeLane (hk : k.isInteger = true) (hl : lane < k.lanesPerComponent)
    (hbits : k.bits.toNat ≤ 16) :
    k.integer (k.encodeNumber (k.decodeLane w lane)) = k.laneInteger w lane := by
  obtain ⟨negative, m, e, hd, hexact⟩ := stands_decodeLane (w := w) hk hl hbits
  have hround : roundHalfAway (k.laneInteger w lane) = k.laneInteger w lane := by
    unfold roundHalfAway
    split
    · rw [← Int.cast_neg, Int.floor_intCast_add]
      norm_num
    · rw [Int.floor_intCast_add]
      norm_num
  have hsaturated (lo hi : ℤ) : (decode (k.decodeLane w lane)).saturated lo hi =
      max lo (min hi (k.laneInteger w lane)) := by
    rw [hd]
    show max lo (min hi (roundHalfAway (exact negative m e))) = _
    rw [hexact, hround]
  have hfits := laneInteger_fits (w := w) hl
  generalize k.laneInteger w lane = n at hsaturated hfits
  cases k with
  | f32 | f16 | c10 => cases hk
  | u32 | s32 => exact absurd hbits (by decide)
  | u8 | s8 | u16 | s16 =>
    rw [integer_encodeNumber rfl, hsaturated]
    simp [Fits, isSigned, bits] at hfits
    omega

/-! ## Fixed point -/

/-- The step of fixed-point numbers, as a pattern. -/
theorem stands_fixedStep : Stands 0x3b808081 (8421505 / 2 ^ 31) := by
  refine ⟨false, 8421505, -31, rfl, ?_⟩
  norm_num [exact]

/-- Of all patterns, the step is nearest to 1/255. -/
theorem nearest_fixedStep : Format.single.Nearest (0x3b808081 : UInt32).toNat (1 / 255) := by
  have hlow : Format.single.value 0x3b808080 = 8421504 / 2 ^ 31 := by
    have hunits : Format.single.units 0x3b808080 = 8421504 * 2 ^ 118 := by decide
    unfold Format.value
    rw [hunits, show Format.single.lastPlace = -149 from rfl]
    norm_num
  have hhigh : Format.single.value (0x3b808080 + 1) = 8421505 / 2 ^ 31 := by
    have hunits : Format.single.units (0x3b808080 + 1) = 8421505 * 2 ^ 118 := by decide
    unfold Format.value
    rw [hunits, show Format.single.lastPlace = -149 from rfl]
    norm_num
  have hnear := nearest_of_neighbours (Format.value_strictMono (f := Format.single)) (x := 1 / 255)
    (p := 0x3b808080 + 1) (i := 0x3b808080) (by rw [hlow]; norm_num) (by rw [hhigh]; norm_num)
    (by rw [hlow, hhigh]; norm_num)
  have hclosest : Format.single.Closest (1 / 255) (0x3b808080 + 1) := by
    refine ⟨fun c => (hnear c).1, fun c hc htie => ?_⟩
    have hmiddle := (hnear c).2 hc htie
    rw [hlow, hhigh] at hmiddle
    norm_num at hmiddle
  have h := hclosest.nearest Format.single_proper (by norm_num) false
  rw [if_neg Bool.false_ne_true, one_mul] at h
  exact h

/-- Fixed-point lanes are read as the patterns nearest to so many steps. -/
theorem nearest_decodeLane_c10 (hl : lane < c10.lanesPerComponent) :
    Format.single.Nearest (c10.decodeLane w lane).toNat
      (c10.laneInteger w lane * (8421505 / 2 ^ 31)) := by
  have hfits := laneInteger_fits (w := w) hl
  have hsmall : (c10.laneInteger w lane).natAbs < 2 ^ 24 := by
    simp [Fits, isSigned, bits] at hfits
    omega
  have hexact := stands_ofInt_of_lt hsmall
  have hinteger : c10.laneInteger w lane = (BitField.extractSigned w (lane * 10) 10).toInt32.toInt :=
    if_pos rfl
  have hread : c10.decodeLane w lane =
      mul (ofSigned (BitField.extractSigned w (lane * 10) 10)) 0x3b808081 := by
    unfold decodeLane
    rfl
  rw [hinteger] at hexact ⊢
  rw [hread]
  exact nearest_mul hexact stands_fixedStep

end TextureLift.Encoding
