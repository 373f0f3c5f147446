import TextureLift.Number.BitField

/-!
# Bits of bit fields

A word with a field replaced has the bits of the new value inside the field and its own bits outside:

    bit j of insert base value offset count
      = bit (j - offset) of value      if offset ≤ j < offset + count
      = bit j of base                  otherwise

for fields that end within the word, also those of 32 bits.
-/

namespace TextureLift.Number.BitField

variable {base value offset count : UInt32}

theorem testBit_of_ge (w : UInt32) {j : Nat} (h : 32 ≤ j) : w.toNat.testBit j = false := by
  refine Nat.testBit_lt_two_pow (Nat.lt_of_lt_of_le w.toNat_lt ?_)
  exact Nat.pow_le_pow_right (by decide) h

theorem testBit_mask (count : UInt32) (j : Nat) :
    (mask count).toNat.testBit j = decide (j < count.toNat ∧ j < 32) := by
  unfold mask
  by_cases hc : 32 ≤ count
  · have hle : 32 ≤ count.toNat := UInt32.le_iff_toNat_le.1 hc
    rw [if_pos hc]
    show (2 ^ 32 - 1 : Nat).testBit j = _
    rw [Nat.testBit_two_pow_sub_one]
    exact decide_eq_decide.2 ⟨fun h => ⟨by omega, h⟩, And.right⟩
  · have hlt : count.toNat < 32 := Nat.lt_of_not_le fun h => hc (UInt32.le_iff_toNat_le.2 h)
    have hpow : (1 <<< count : UInt32).toNat = 2 ^ count.toNat := by
      rw [UInt32.toNat_shiftLeft, Nat.mod_eq_of_lt hlt]
      show 1 <<< count.toNat % 2 ^ 32 = _
      rw [Nat.one_shiftLeft, Nat.mod_eq_of_lt (Nat.pow_lt_pow_right (by decide) hlt)]
    have hone : (1 : UInt32) ≤ 1 <<< count := by
      rw [UInt32.le_iff_toNat_le, hpow]
      exact Nat.one_le_two_pow
    rw [if_neg hc, UInt32.toNat_sub_of_le _ _ hone, hpow]
    show (2 ^ count.toNat - 1).testBit j = _
    rw [Nat.testBit_two_pow_sub_one]
    exact decide_eq_decide.2 ⟨fun h => ⟨h, by omega⟩, And.left⟩

theorem testBit_shiftLeft (w : UInt32) (h : offset.toNat < 32) (j : Nat) :
    (w <<< offset).toNat.testBit j =
      (decide (j < 32) && (decide (offset.toNat ≤ j) && w.toNat.testBit (j - offset.toNat))) := by
  rw [UInt32.toNat_shiftLeft, Nat.mod_eq_of_lt h, Nat.testBit_mod_two_pow, Nat.testBit_shiftLeft]

theorem testBit_not (w : UInt32) (j : Nat) :
    (~~~w).toNat.testBit j = (decide (j < 32) && !w.toNat.testBit j) := by
  show (~~~w).toBitVec.getLsbD j = (decide (j < 32) && !w.toBitVec.getLsbD j)
  rw [UInt32.toBitVec_not, BitVec.getLsbD_not]

/-- A replaced field has the low bits of the value, and the other bits are those of the base. -/
theorem testBit_insert (ho : offset.toNat < 32) (h : offset.toNat + count.toNat ≤ 32) (j : Nat) :
    (insert base value offset count).toNat.testBit j =
      if offset.toNat ≤ j ∧ j < offset.toNat + count.toNat then
        value.toNat.testBit (j - offset.toNat)
      else base.toNat.testBit j := by
  unfold insert
  rw [UInt32.toNat_or, UInt32.toNat_and, UInt32.toNat_and, Nat.testBit_or, Nat.testBit_and,
    Nat.testBit_and, testBit_not, testBit_shiftLeft _ ho, testBit_shiftLeft _ ho, testBit_mask]
  by_cases hj : j < 32
  · by_cases hin : offset.toNat ≤ j ∧ j < offset.toNat + count.toNat
    · have hmask : j - offset.toNat < count.toNat ∧ j - offset.toNat < 32 := by omega
      rw [if_pos hin, decide_eq_true hj, decide_eq_true hin.1, decide_eq_true hmask]
      simp
    · rw [if_neg hin]
      by_cases hle : offset.toNat ≤ j
      · have hmask : ¬ (j - offset.toNat < count.toNat ∧ j - offset.toNat < 32) := by omega
        rw [decide_eq_true hj, decide_eq_false hmask]
        simp
      · rw [decide_eq_true hj, decide_eq_false hle]
        simp
  · have hout : ¬ (offset.toNat ≤ j ∧ j < offset.toNat + count.toNat) := by omega
    rw [if_neg hout, decide_eq_false hj, testBit_of_ge base (Nat.le_of_not_lt hj)]
    simp

end TextureLift.Number.BitField
