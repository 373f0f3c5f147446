import Mathlib.Algebra.Group.Nat.Defs
import TextureLift.Proofs.Machine.Robust
import TextureLift.Proofs.Number.BitField

/-!
# Bit-field instructions

The machine replaces a field of a word and takes a field out of one, as a number without or with a
sign. Fields are sets of bits: every law follows from which bits a replaced field has
(`testBit_insert`) and which an extracted one (`testBit_extract`, `testBit_extractSigned`):

    extract (insert base value offset count) offset count  =  value mod 2 ^ count
    insert base (extract base offset count) offset count   =  base

and a field that shares no bit with the replaced one stays as it is.
-/

namespace TextureLift.Number.BitField

variable {base value value' offset offset' count count' : UInt32}

/-! ## Extracted bits -/

theorem testBit_extract (ho : offset.toNat < 32) (j : Nat) :
    (extract base offset count).toNat.testBit j =
      (decide (j < count.toNat) && base.toNat.testBit (offset.toNat + j)) := by
  unfold extract
  rw [UInt32.toNat_and, Nat.testBit_and, testBit_mask, UInt32.toNat_shiftRight, Nat.mod_eq_of_lt ho,
    Nat.testBit_shiftRight]
  by_cases hj : j < 32
  · simp [hj, Bool.and_comm]
  · rw [testBit_of_ge base (by omega)]
    simp

/-- A field is a number of as many bits. -/
theorem toNat_extract (ho : offset.toNat < 32) :
    (extract base offset count).toNat = base.toNat >>> offset.toNat % 2 ^ count.toNat := by
  refine Nat.eq_of_testBit_eq fun j => ?_
  rw [testBit_extract ho, Nat.testBit_mod_two_pow, Nat.testBit_shiftRight]

/-! ## Signs -/

/-- The gap above a field is shifted out and filled with the sign. -/
theorem toBitVec_shifts {gap : UInt32} (hg : gap < 32) :
    ((value.toInt32 <<< gap.toInt32) >>> gap.toInt32).toBitVec =
      (value.toBitVec <<< gap.toNat).sshiftRight gap.toNat := by
  have hmod : (gap.toBitVec.smod 32).toNat = gap.toNat := by
    rw [Trap.smod_of_lt hg, BitVec.toNat_umod]
    exact Nat.mod_eq_of_lt hg
  rw [Int32.toBitVec_shiftRight, Int32.toBitVec_shiftLeft, UInt32.toBitVec_toInt32,
    UInt32.toBitVec_toInt32, BitVec.sshiftRight_eq', BitVec.shiftLeft_eq', hmod]

/-- Shifted to the top and back, the low bits of a word are read in two's complement. -/
theorem sshiftRight_shiftLeft (x : BitVec 32) {n : Nat} (hpos : 0 < n) (hn : n ≤ 32) :
    (x <<< (32 - n)).sshiftRight (32 - n) = (x.setWidth n).signExtend 32 := by
  refine BitVec.eq_of_getLsbD_eq fun j hj => ?_
  have hle : ¬ 32 ≤ j := by omega
  rw [BitVec.getLsbD_sshiftRight, BitVec.getLsbD_signExtend, BitVec.msb_eq_getLsbD_last,
    BitVec.msb_eq_getLsbD_last]
  by_cases hin : j < n
  · have hsum : 32 - n + j < 32 := by omega
    have hge : ¬ 32 - n + j < 32 - n := by omega
    have hback : 32 - n + j - (32 - n) = j := by omega
    rw [if_pos hin, if_pos hsum, BitVec.getLsbD_shiftLeft, BitVec.getLsbD_setWidth, hback]
    simp only [hle, hj, hin, hsum, hge, decide_true, decide_false, Bool.not_false, Bool.true_and]
  · -- both signs are the last of the low bits
    have hsum : ¬ 32 - n + j < 32 := by omega
    have hge : ¬ 32 - 1 < 32 - n := by omega
    have hlast : n - 1 < n := by omega
    have hback : 32 - 1 - (32 - n) = n - 1 := by omega
    rw [if_neg hin, if_neg hsum, BitVec.getLsbD_shiftLeft, BitVec.getLsbD_setWidth, hback]
    simp only [hle, hj, hge, hlast, decide_true, decide_false, Bool.not_false, Bool.true_and,
      Nat.reduceSub, Nat.reduceLT]

/-- A number of `count` bits is read in two's complement. -/
theorem toBitVec_signExtend (hc : count.toNat ≤ 32) (hv : value.toNat < 2 ^ count.toNat) :
    (signExtend value count).toBitVec = (value.toBitVec.setWidth count.toNat).signExtend 32 := by
  unfold signExtend
  by_cases h : 0 < count ∧ count < 32
  · have hpos : 0 < count.toNat := h.1
    have hgap : (32 - count).toNat = 32 - count.toNat :=
      UInt32.toNat_sub_of_le 32 count (UInt32.le_of_lt h.2)
    have hlt : 32 - count < 32 := by
      rw [UInt32.lt_iff_toNat_lt, hgap]
      exact Nat.sub_lt (by decide) hpos
    rw [if_pos h]
    show ((value.toInt32 <<< (32 - count).toInt32) >>> (32 - count).toInt32).toBitVec = _
    rw [toBitVec_shifts hlt, hgap, sshiftRight_shiftLeft _ hpos hc]
  · rw [if_neg h]
    -- no bits or all of them
    have hedge : count.toNat = 0 ∨ count.toNat = 32 := by
      rw [UInt32.lt_iff_toNat_lt, UInt32.lt_iff_toNat_lt] at h
      have h : ¬ (0 < count.toNat ∧ count.toNat < 32) := h
      omega
    rcases hedge with hcount | hcount
    · rw [hcount] at hv
      have hzero : value = 0 := UInt32.toNat_inj.1 (Nat.lt_one_iff.1 hv)
      rw [hzero, hcount]
      rfl
    · rw [hcount, BitVec.setWidth_eq, BitVec.signExtend_eq]

theorem toBitVec_extractSigned (ho : offset.toNat < 32) (hc : count.toNat ≤ 32) :
    (extractSigned base offset count).toBitVec =
      ((base.toBitVec >>> offset.toNat).setWidth count.toNat).signExtend 32 := by
  have hlt : (extract base offset count).toNat < 2 ^ count.toNat := by
    rw [toNat_extract ho]
    exact Nat.mod_lt _ (Nat.two_pow_pos _)
  have hfield : (extract base offset count).toBitVec.setWidth count.toNat =
      (base.toBitVec >>> offset.toNat).setWidth count.toNat := by
    apply BitVec.eq_of_toNat_eq
    rw [BitVec.toNat_setWidth, BitVec.toNat_setWidth, BitVec.toNat_ushiftRight]
    show (extract base offset count).toNat % _ = base.toNat >>> offset.toNat % _
    rw [toNat_extract ho, Nat.mod_mod]
  unfold extractSigned
  rw [toBitVec_signExtend hc hlt, hfield]

/-- The field in two's complement. -/
theorem toInt_extractSigned (ho : offset.toNat < 32) (hc : count.toNat ≤ 32) :
    (extractSigned base offset count).toInt32.toInt =
      ((base.toBitVec >>> offset.toNat).setWidth count.toNat).toInt := by
  show (extractSigned base offset count).toBitVec.toInt = _
  rw [toBitVec_extractSigned ho hc, BitVec.toInt_signExtend_of_le hc]

theorem testBit_extractSigned (ho : offset.toNat < 32) (hc : count.toNat ≤ 32) {j : Nat}
    (hj : j < count.toNat) :
    (extractSigned base offset count).toNat.testBit j = base.toNat.testBit (offset.toNat + j) := by
  show (extractSigned base offset count).toBitVec.getLsbD j = base.toBitVec.getLsbD (offset.toNat + j)
  rw [toBitVec_extractSigned ho hc, BitVec.getLsbD_signExtend, if_pos hj, BitVec.getLsbD_setWidth,
    BitVec.getLsbD_ushiftRight, decide_eq_true hj, decide_eq_true (Nat.lt_of_lt_of_le hj hc)]
  rfl

/-! ## Laws -/

/-- No bit is in both fields. -/
def Apart (offset count offset' count' : UInt32) : Prop :=
  ∀ j, ¬ ((offset.toNat ≤ j ∧ j < offset.toNat + count.toNat) ∧
    (offset'.toNat ≤ j ∧ j < offset'.toNat + count'.toNat))

theorem eq_of_testBit {w w' : UInt32} (h : ∀ j, w.toNat.testBit j = w'.toNat.testBit j) : w = w' :=
  UInt32.toNat_inj.1 (Nat.eq_of_testBit_eq h)

/-- A replaced field holds the low bits of the value. -/
theorem extract_insert_self (ho : offset.toNat < 32) (h : offset.toNat + count.toNat ≤ 32) :
    extract (insert base value offset count) offset count = extract value 0 count := by
  refine eq_of_testBit fun j => ?_
  rw [testBit_extract ho, testBit_extract (by decide), testBit_insert ho h]
  by_cases hj : j < count.toNat
  · rw [if_pos (by omega), Nat.add_sub_cancel_left]
    show _ = (_ && value.toNat.testBit (0 + j))
    rw [Nat.zero_add]
  · rw [decide_eq_false hj]
    rfl

/-- A field that shares no bit with the replaced one stays as it is. -/
theorem extract_insert_apart (ho : offset.toNat < 32) (h : offset.toNat + count.toNat ≤ 32)
    (ho' : offset'.toNat < 32) (hapart : Apart offset count offset' count') :
    extract (insert base value offset count) offset' count' = extract base offset' count' := by
  refine eq_of_testBit fun j => ?_
  rw [testBit_extract ho', testBit_extract ho', testBit_insert ho h]
  by_cases hj : j < count'.toNat
  · rw [if_neg fun hin => hapart _ ⟨hin, by omega⟩]
  · rw [decide_eq_false hj]
    rfl

/-- A field that is replaced by its own bits leaves the word as it is. -/
theorem insert_eq_self (ho : offset.toNat < 32) (h : offset.toNat + count.toNat ≤ 32)
    (hbits : ∀ j < count.toNat, value.toNat.testBit j = base.toNat.testBit (offset.toNat + j)) :
    insert base value offset count = base := by
  refine eq_of_testBit fun j => ?_
  rw [testBit_insert ho h]
  split
  · rename_i hj
    rw [hbits _ (by omega), Nat.add_sub_cancel' hj.1]
  · rfl

/-- Fields that share no bit are replaced in either order. -/
theorem insert_comm (ho : offset.toNat < 32) (h : offset.toNat + count.toNat ≤ 32)
    (ho' : offset'.toNat < 32) (h' : offset'.toNat + count'.toNat ≤ 32)
    (hapart : Apart offset count offset' count') :
    insert (insert base value offset count) value' offset' count' =
      insert (insert base value' offset' count') value offset count := by
  refine eq_of_testBit fun j => ?_
  rw [testBit_insert ho' h', testBit_insert ho h, testBit_insert ho h, testBit_insert ho' h']
  by_cases hin : offset.toNat ≤ j ∧ j < offset.toNat + count.toNat
  · have hout : ¬ (offset'.toNat ≤ j ∧ j < offset'.toNat + count'.toNat) := fun hj => hapart j ⟨hin, hj⟩
    rw [if_neg hout, if_pos hin, if_pos hin]
  · rw [if_neg hin, if_neg hin]

end TextureLift.Number.BitField

/-! ## The instructions -/

namespace TextureLift

open Number

namespace Machine

/-- The first operands of the instruction have these words as their first lanes, and its value is to be
of the kind. -/
structure Applies (m : Machine) (b : Builder) (i : Inst) (words : List UInt32) (kind : ScalarKind) :
    Prop where
  operands : (List.range words.length).map (m.firstLane? b i) = words.map some
  kind : i.resultType.bind b.scalarKind? = some kind

variable {m : Machine} {b : Builder} {i : Inst} {words : List UInt32} {kind : ScalarKind}
  {base value offset count : UInt32}

theorem Applies.scalar (h : m.Applies b i words kind) {n : Nat} {w : UInt32}
    (hw : words[n]? = some w) : m.scalar b i n = .ok w := by
  have hlt := (List.getElem?_eq_some_iff.1 hw).1
  have hn := congrArg (·[n]?) h.operands
  rw [List.getElem?_map, List.getElem?_map, List.getElem?_range hlt, hw] at hn
  exact scalar_eq_ok_iff.2 (Option.some.inj hn)

/-- What an instruction on a field comes to once its operands are read. -/
theorem Applies.ofResultType (h : m.Applies b i words kind) (ho : offset < 32) (w : UInt32) :
    (do checkOffset offset; ofResultType b i [w]) = .ok (.lanes kind [w]) := by
  unfold Machine.ofResultType
  rw [checkOffset_of_lt ho, h.kind]
  rfl

theorem eval_bitFieldInsert (ho : offset < 32) (hop : i.opcode = .bitFieldInsert)
    (h : m.Applies b i [base, value, offset, count] kind) :
    m.eval b i = .ok (.lanes kind [BitField.insert base value offset count]) := by
  unfold eval
  rw [hop]
  dsimp only
  rw [h.scalar (n := 0) rfl, h.scalar (n := 1) rfl, h.scalar (n := 2) rfl, h.scalar (n := 3) rfl]
  exact h.ofResultType ho _

theorem eval_bitFieldUExtract (ho : offset < 32) (hop : i.opcode = .bitFieldUExtract)
    (h : m.Applies b i [base, offset, count] kind) :
    m.eval b i = .ok (.lanes kind [BitField.extract base offset count]) := by
  unfold eval
  rw [hop]
  dsimp only
  rw [h.scalar (n := 0) rfl, h.scalar (n := 1) rfl, h.scalar (n := 2) rfl]
  exact h.ofResultType ho _

theorem eval_bitFieldSExtract (ho : offset < 32) (hop : i.opcode = .bitFieldSExtract)
    (h : m.Applies b i [base, offset, count] kind) :
    m.eval b i = .ok (.lanes kind [BitField.extractSigned base offset count]) := by
  unfold eval
  rw [hop]
  dsimp only
  rw [h.scalar (n := 0) rfl, h.scalar (n := 1) rfl, h.scalar (n := 2) rfl]
  exact h.ofResultType ho _

end Machine

namespace Number.BitField

/-- The algebra of bit fields. For a field that ends within the word, the instructions compute `insert`,
`extract` and `extractSigned` of the first lanes of their operands, and these obey: a replaced field
reads as the value modulo a power of two, and as the two's complement of its low bits; a field that
shares no bit with it reads as before; a field that is replaced by what was read from it leaves the word
as it was; and replacements of fields that share no bit commute. -/
theorem field_laws {base value offset count : UInt32} (ho : offset < 32)
    (h : offset.toNat + count.toNat ≤ 32) :
    (∀ (m : Machine) (b : Builder) (i : Inst) (kind : ScalarKind),
      (i.opcode = .bitFieldInsert → m.Applies b i [base, value, offset, count] kind →
        m.eval b i = .ok (.lanes kind [insert base value offset count])) ∧
      (i.opcode = .bitFieldUExtract → m.Applies b i [base, offset, count] kind →
        m.eval b i = .ok (.lanes kind [extract base offset count])) ∧
      (i.opcode = .bitFieldSExtract → m.Applies b i [base, offset, count] kind →
        m.eval b i = .ok (.lanes kind [extractSigned base offset count]))) ∧
    (extract (insert base value offset count) offset count).toNat =
      value.toNat % 2 ^ count.toNat ∧
    (extractSigned (insert base value offset count) offset count).toInt32.toInt =
      (value.toBitVec.setWidth count.toNat).toInt ∧
    (count = 0 → extractSigned (insert base value offset count) offset count = 0) ∧
    (∀ offset' count', offset' < 32 → Apart offset count offset' count' →
      extract (insert base value offset count) offset' count' = extract base offset' count' ∧
      extractSigned (insert base value offset count) offset' count' =
        extractSigned base offset' count') ∧
    insert base (extract base offset count) offset count = base ∧
    insert base (extractSigned base offset count) offset count = base ∧
    ∀ value' offset' count', offset' < 32 → offset'.toNat + count'.toNat ≤ 32 →
      Apart offset count offset' count' →
      insert (insert base value offset count) value' offset' count' =
        insert (insert base value' offset' count') value offset count := by
  have hoffset : offset.toNat < 32 := ho
  have hcount : count.toNat ≤ 32 := by omega
  have hself : extract (insert base value offset count) offset count = extract value 0 count :=
    extract_insert_self hoffset h
  have hsigned : extractSigned (insert base value offset count) offset count =
      extractSigned value 0 count :=
    congrArg (signExtend · count) hself
  refine ⟨fun m b i kind => ⟨Machine.eval_bitFieldInsert ho, Machine.eval_bitFieldUExtract ho,
    Machine.eval_bitFieldSExtract ho⟩, ?_, ?_, ?_, fun offset' count' ho' hapart => ?_, ?_, ?_,
    fun value' offset' count' ho' h' => insert_comm hoffset h ho' h'⟩
  · rw [hself, toNat_extract (by decide)]
    rfl
  · rw [hsigned, toInt_extractSigned (by decide) hcount]
    rfl
  · rintro rfl
    rw [hsigned]
    exact UInt32.and_zero
  · have hextract : extract (insert base value offset count) offset' count' =
        extract base offset' count' := extract_insert_apart hoffset h ho' hapart
    exact ⟨hextract, congrArg (signExtend · count') hextract⟩
  · refine insert_eq_self hoffset h fun j hj => ?_
    rw [testBit_extract hoffset, decide_eq_true hj]
    rfl
  · exact insert_eq_self hoffset h fun j => testBit_extractSigned hoffset hcount

/-- A word, a number of ten bits and the place of the ten highest bits, as constants. -/
def topField : Builder :=
  { definitions := #[.plain, .type (.int 32 true), .constant ⟨1⟩ 0xffffffff, .constant ⟨1⟩ 0x2aa,
      .constant ⟨1⟩ 22, .constant ⟨1⟩ 10] }

/-- The number is put into the field, and the field and the rest of the word are read. -/
theorem field_laws_topField : (22 : UInt32) < 32 ∧ (22 : UInt32).toNat + (10 : UInt32).toNat ≤ 32 ∧
    ({} : Machine).eval topField ⟨.bitFieldInsert, some ⟨1⟩, some ⟨6⟩, [2, 3, 4, 5]⟩ =
      .ok (.lanes .i32 [0xaabfffff]) ∧
    (extractSigned 0xaabfffff 22 10).toInt32.toInt = -342 ∧
    extract 0xaabfffff 0 22 = extract 0xffffffff 0 22 ∧
    insert (insert 0xffffffff 0x2aa 22 10) 5 0 22 = insert (insert 0xffffffff 5 0 22) 0x2aa 22 10 := by
  have ho : (22 : UInt32) < 32 := by decide
  have h : (22 : UInt32).toNat + (10 : UInt32).toNat ≤ 32 := by decide
  have hapart : Apart 22 10 0 22 := by
    rintro j ⟨⟨hlow, -⟩, -, hhigh⟩
    exact absurd hhigh (Nat.not_lt.2 hlow)
  have hword : insert 0xffffffff 0x2aa 22 10 = 0xaabfffff := by decide
  obtain ⟨heval, -, hsigned, -, hother, -, -, hcomm⟩ := @field_laws 0xffffffff 0x2aa 22 10 ho h
  rw [hword] at heval hsigned hother
  exact ⟨ho, h, (heval {} topField _ .i32).1 rfl ⟨by decide +kernel, by decide +kernel⟩, hsigned.trans (by decide),
    (hother 0 22 (by decide) hapart).1, hcomm 5 0 22 (by decide) (by decide) hapart⟩

end Number.BitField

end TextureLift
