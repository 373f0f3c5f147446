import Mathlib.Algebra.Group.Nat.Defs
import Mathlib.Data.Set.Function
import TextureLift.Instruction.Sample

/-!
# Instruction words, read and written

A field is given by the bits that it has in the word. Reading and writing are stated bit by bit:

    bit j of f.get w        = bit (f.position + j) of w, below the width
    bit j of f.put v        = bit (j - f.position) of v, within the field
    bit j of assemble fs    = some field of fs puts it there

Fields that lie apart can be read back from the word that was assembled of them (`get_assemble`), and
the fields of a word give it back in all bits that they have (`testBit_assemble_get`). The fields of the
sample instruction have each bit of the word once, but for the reserved one.
-/

namespace TextureLift

/-! ## Fields -/

namespace Field

variable {f g : Field} {w : UInt64} {v : UInt8} {j : Nat} {fs : List Field} {ps : List (Field × UInt8)}

/-- The field has bit `j` of the word. -/
def Contains (f : Field) (j : Nat) : Prop :=
  f.position ≤ j ∧ j < f.position + f.width

instance (f : Field) (j : Nat) : Decidable (f.Contains j) :=
  inferInstanceAs (Decidable (_ ∧ _))

/-- The fields have no bit in common. -/
def Apart (f g : Field) : Prop :=
  f.position + f.width ≤ g.position ∨ g.position + g.width ≤ f.position

instance (f g : Field) : Decidable (f.Apart g) :=
  inferInstanceAs (Decidable (_ ∨ _))

/-- The field lies within the word and its values fit a byte. -/
structure Formed (f : Field) : Prop where
  width : f.width ≤ 8
  ends : f.position + f.width ≤ 64

instance (f : Field) : Decidable f.Formed :=
  decidable_of_iff (f.width ≤ 8 ∧ f.position + f.width ≤ 64)
    ⟨fun h => ⟨h.1, h.2⟩, fun h => ⟨h.1, h.2⟩⟩

theorem Apart.not_contains (h : f.Apart g) (hf : f.Contains j) : ¬ g.Contains j := by
  unfold Apart at h
  unfold Contains at *
  omega

/-- A field has no more bits than it is wide. -/
theorem get_lt (f : Field) (w : UInt64) : (f.get w).toNat < 2 ^ f.width := by
  have hfield : w.toNat / 2 ^ f.position % 2 ^ f.width < 2 ^ f.width :=
    Nat.mod_lt _ (Nat.two_pow_pos _)
  have hbyte : (f.get w).toNat = w.toNat / 2 ^ f.position % 2 ^ f.width % 2 ^ 8 :=
    UInt8.toNat_ofNat'
  rw [hbyte]
  exact Nat.lt_of_le_of_lt (Nat.mod_le ..) hfield

theorem testBit_get (h : f.width ≤ 8) :
    (f.get w).toNat.testBit j = (decide (j < f.width) && w.toNat.testBit (f.position + j)) := by
  have hbyte : (f.get w).toNat = w.toNat / 2 ^ f.position % 2 ^ f.width % 2 ^ 8 :=
    UInt8.toNat_ofNat'
  have hle : 2 ^ f.width ≤ 2 ^ 8 := Nat.pow_le_pow_right (by decide) h
  have hlt : w.toNat / 2 ^ f.position % 2 ^ f.width < 2 ^ 8 :=
    Nat.lt_of_lt_of_le (Nat.mod_lt _ (Nat.two_pow_pos _)) hle
  rw [hbyte, Nat.mod_eq_of_lt hlt, Nat.testBit_mod_two_pow, Nat.testBit_div_two_pow,
    Nat.add_comm]

theorem testBit_put (h : f.Formed) :
    (f.put v).toNat.testBit j = (decide (f.Contains j) && v.toNat.testBit (j - f.position)) := by
  have hword : (f.put v).toNat = v.toNat % 2 ^ f.width * 2 ^ f.position % 2 ^ 64 :=
    UInt64.toNat_ofNat'
  have hlt : v.toNat % 2 ^ f.width * 2 ^ f.position < 2 ^ 64 := by
    calc v.toNat % 2 ^ f.width * 2 ^ f.position < 2 ^ f.width * 2 ^ f.position :=
          Nat.mul_lt_mul_of_pos_right (Nat.mod_lt _ (Nat.two_pow_pos _)) (Nat.two_pow_pos _)
      _ = 2 ^ (f.position + f.width) := by rw [← Nat.pow_add, Nat.add_comm]
      _ ≤ 2 ^ 64 := Nat.pow_le_pow_right (by decide) h.ends
  rw [hword, Nat.mod_eq_of_lt hlt, Nat.testBit_mul_two_pow, Nat.testBit_mod_two_pow, ← Bool.and_assoc,
    ← Bool.decide_and]
  congr 1
  refine decide_eq_decide.2 ?_
  unfold Contains
  omega

/-! ## Words made of fields -/

theorem testBit_assemble (ps : List (Field × UInt8)) (j : Nat) :
    (assemble ps).toNat.testBit j = ps.any fun p => (p.1.put p.2).toNat.testBit j := by
  induction ps with
  | nil => exact Nat.zero_testBit j
  | cons p ps ih =>
    show (p.1.put p.2 ||| assemble ps).toNat.testBit j = _
    rw [UInt64.toNat_or, Nat.testBit_or, ih, List.any_cons]

/-- Within a field, the word has the bits of the value that was put there. -/
theorem testBit_assemble_of_mem (hformed : ∀ p ∈ ps, p.1.Formed)
    (hapart : ps.Pairwise fun p q => p.1.Apart q.1) (hmem : (f, v) ∈ ps) (hj : f.Contains j) :
    (assemble ps).toNat.testBit j = v.toNat.testBit (j - f.position) := by
  have hother {p : Field × UInt8} (hp : p ∈ ps) (hne : ¬ p.1.Contains j) :
      (p.1.put p.2).toNat.testBit j = false := by
    rw [testBit_put (hformed p hp), decide_eq_false hne, Bool.false_and]
  rw [testBit_assemble]
  induction ps with
  | nil => cases hmem
  | cons p ps ih =>
    obtain ⟨hhead, htail⟩ := List.pairwise_cons.1 hapart
    rw [List.any_cons]
    rcases List.mem_cons.1 hmem with rfl | hmem'
    · -- the fields behind have other bits
      have hrest : (ps.any fun q => (q.1.put q.2).toNat.testBit j) = false := by
        refine List.any_eq_false.2 fun q hq => ?_
        rw [hother (List.mem_cons_of_mem _ hq) ((hhead q hq).not_contains hj)]
        exact Bool.false_ne_true
      rw [hrest, Bool.or_false, testBit_put (hformed _ (List.mem_cons_self ..)), decide_eq_true hj,
        Bool.true_and]
    · have hfirst : ¬ p.1.Contains j := fun h => (hhead _ hmem').not_contains h hj
      rw [hother (List.mem_cons_self ..) hfirst, Bool.false_or]
      exact ih (fun q hq => hformed q (List.mem_cons_of_mem _ hq)) htail hmem'
        fun hq => hother (List.mem_cons_of_mem _ hq)

/-- Fields that lie apart are read back, cut to their widths. -/
theorem get_assemble (hformed : ∀ p ∈ ps, p.1.Formed)
    (hapart : ps.Pairwise fun p q => p.1.Apart q.1) (hmem : (f, v) ∈ ps) :
    (f.get (assemble ps)).toNat = v.toNat % 2 ^ f.width := by
  refine Nat.eq_of_testBit_eq fun j => ?_
  rw [testBit_get (hformed _ hmem).width, Nat.testBit_mod_two_pow]
  by_cases hj : j < f.width
  · have hcontains : f.Contains (f.position + j) := ⟨Nat.le_add_right _ _, Nat.add_lt_add_left hj _⟩
    rw [testBit_assemble_of_mem hformed hapart hmem hcontains, Nat.add_sub_cancel_left]
  · rw [decide_eq_false hj, Bool.false_and, Bool.false_and]

/-- The word made of the fields of a word has all bits of it that are in a field. -/
theorem testBit_assemble_get (hformed : ∀ f ∈ fs, f.Formed) :
    (assemble (fs.map fun f => (f, f.get w))).toNat.testBit j =
      ((fs.any fun f => decide (f.Contains j)) && w.toNat.testBit j) := by
  rw [testBit_assemble, List.any_map]
  induction fs with
  | nil => rfl
  | cons f fs ih =>
    rw [List.any_cons, List.any_cons, ih fun g hg => hformed g (List.mem_cons_of_mem _ hg),
      Bool.and_or_distrib_right]
    congr 1
    have hf := hformed f (List.mem_cons_self ..)
    show (f.put (f.get w)).toNat.testBit j = _
    rw [testBit_put hf, testBit_get hf.width]
    by_cases hj : f.Contains j
    · have hlow : j - f.position < f.width := by
        unfold Contains at hj
        omega
      rw [decide_eq_true hj, decide_eq_true hlow, Nat.add_sub_cancel' hj.1, Bool.true_and]
    · rw [decide_eq_false hj, Bool.false_and, Bool.false_and]

theorem toUInt8_test (h : f.width = 1) (w : UInt64) : (f.test w).toUInt8 = f.get w := by
  have hlt := f.get_lt w
  rw [h] at hlt
  have hcases : f.get w = 0 ∨ f.get w = 1 := by
    rcases Nat.lt_succ_iff_lt_or_eq.1 hlt with h0 | h1
    · exact .inl (UInt8.toNat_inj.1 (Nat.lt_one_iff.1 h0))
    · exact .inr (UInt8.toNat_inj.1 h1)
  unfold test
  rcases hcases with h | h <;> rw [h] <;> rfl

end Field

/-! ## The sample instruction -/

namespace Sample

variable {s : Sample} {w : UInt64}

/-- The fields of the word, from the top down. -/
def layout : List Field :=
  ({} : Sample).fields.map Prod.fst

theorem fst_fields (s : Sample) : s.fields.map Prod.fst = layout :=
  rfl

theorem fst_mem_layout {p : Field × UInt8} (h : p ∈ s.fields) : p.1 ∈ layout := by
  rw [← s.fst_fields]
  exact List.mem_map_of_mem h

theorem layout_formed : ∀ f ∈ layout, f.Formed := by
  decide

theorem layout_apart : layout.Pairwise Field.Apart := by
  decide

/-- Every bit of the word is in one field, but for bit 28, which is in none. -/
theorem countP_layout (j : Fin 64) :
    layout.countP (·.Contains j) = if j = 28 then 0 else 1 := by
  revert j
  decide

/-- The word in which only bit 28 is set. -/
def reservedBit : UInt64 :=
  (1 : UInt64) <<< 28

/-- The instruction with each number reduced to what its field can hold. -/
def cut (s : Sample) : Sample :=
  { s with
    predicate := s.predicate % 8
    destFormat := s.destFormat % 4
    maskCount := s.maskCount % 4
    dimension := s.dimension % 4
    lodMode := s.lodMode % 4
    storeMode := s.storeMode % 4
    coordEncoding := s.coordEncoding % 4
    coordBank := s.coordBank % 2
    dependency := s.dependency % 4
    samplerBank := s.samplerBank % 4
    lodBank := s.lodBank % 4
    destIndex := s.destIndex % 128
    coordIndex := s.coordIndex % 128
    samplerIndex := s.samplerIndex % 128
    lodIndex := s.lodIndex % 128 }

/-- Each number fits its field. -/
structure InWidth (s : Sample) : Prop where
  predicate : s.predicate < 8
  destFormat : s.destFormat < 4
  maskCount : s.maskCount < 4
  dimension : s.dimension < 4
  lodMode : s.lodMode < 4
  storeMode : s.storeMode < 4
  coordEncoding : s.coordEncoding < 4
  coordBank : s.coordBank < 2
  dependency : s.dependency < 4
  samplerBank : s.samplerBank < 4
  lodBank : s.lodBank < 4
  destIndex : s.destIndex < 128
  coordIndex : s.coordIndex < 128
  samplerIndex : s.samplerIndex < 128
  lodIndex : s.lodIndex < 128

theorem InWidth.cut (h : s.InWidth) : s.cut = s := by
  unfold Sample.cut
  simp only [UInt8.mod_eq_of_lt h.predicate, UInt8.mod_eq_of_lt h.destFormat,
    UInt8.mod_eq_of_lt h.maskCount, UInt8.mod_eq_of_lt h.dimension, UInt8.mod_eq_of_lt h.lodMode,
    UInt8.mod_eq_of_lt h.storeMode, UInt8.mod_eq_of_lt h.coordEncoding, UInt8.mod_eq_of_lt h.coordBank,
    UInt8.mod_eq_of_lt h.dependency, UInt8.mod_eq_of_lt h.samplerBank, UInt8.mod_eq_of_lt h.lodBank,
    UInt8.mod_eq_of_lt h.destIndex, UInt8.mod_eq_of_lt h.coordIndex, UInt8.mod_eq_of_lt h.samplerIndex,
    UInt8.mod_eq_of_lt h.lodIndex]

/-! ## Words of instructions -/

theorem fields_formed (s : Sample) : ∀ p ∈ s.fields, p.1.Formed :=
  fun p hp => layout_formed p.1 (fst_mem_layout hp)

theorem fields_apart (s : Sample) : s.fields.Pairwise fun p q => p.1.Apart q.1 := by
  refine List.pairwise_map.1 ?_
  rw [s.fst_fields]
  exact layout_apart

/-- Every field of the word holds the low bits of its value. -/
theorem get_encode (s : Sample) :
    ∀ p ∈ s.fields, p.1.get s.encode = p.2 % .ofNat (2 ^ p.1.width) := by
  intro p hp
  have hwidth : p.1.width < 8 := by
    have hlayout : ∀ f ∈ layout, f.width < 8 := by decide
    exact hlayout p.1 (fst_mem_layout hp)
  have hmodulus : (UInt8.ofNat (2 ^ p.1.width)).toNat = 2 ^ p.1.width :=
    UInt8.toNat_ofNat_of_lt' (Nat.pow_lt_pow_right (by decide) hwidth)
  refine UInt8.toNat_inj.1 ?_
  rw [UInt8.toNat_mod, hmodulus]
  exact Field.get_assemble s.fields_formed s.fields_apart hp

theorem toUInt8_inj {x y : Bool} : x.toUInt8 = y.toUInt8 ↔ x = y := by
  cases x <;> cases y <;> decide

/-- An instruction is determined by its fields. -/
theorem fields_injective : Function.Injective fields := by
  intro s t h
  simp only [fields, List.cons.injEq, Prod.mk.injEq, true_and, and_true, toUInt8_inj] at h
  cases s
  cases t
  simp_all

/-- A word is read as the instruction whose fields it has. -/
theorem decode?_eq_some {w : UInt64} {s : Sample} :
    decode? w = some s ↔ s.fields = layout.map fun f => (f, f.get w) := by
  have hread (hop : Layout.operation.get w = operation) :
      ∃ t, decode? w = some t ∧ t.fields = layout.map fun f => (f, f.get w) := by
    refine ⟨_, if_pos hop, ?_⟩
    simp only [fields, Field.toUInt8_test (f := Layout.skipInvalid) rfl,
      Field.toUInt8_test (f := Layout.noSchedule) rfl, Field.toUInt8_test (f := Layout.syncStart) rfl,
      Field.toUInt8_test (f := Layout.minPack) rfl, Field.toUInt8_test (f := Layout.coordExtended) rfl,
      Field.toUInt8_test (f := Layout.samplerExtended) rfl,
      Field.toUInt8_test (f := Layout.lodExtended) rfl, Field.toUInt8_test (f := Layout.destPrimAttr) rfl,
      ← hop]
    rfl
  constructor
  · intro h
    have hop : Layout.operation.get w = operation := by
      unfold decode? at h
      split at h
      · assumption
      · cases h
    obtain ⟨t, ht, hfields⟩ := hread hop
    rw [h] at ht
    obtain rfl := Option.some.inj ht
    exact hfields
  · intro h
    have hop : operation = Layout.operation.get w := (Prod.mk.inj (List.cons.inj h).1).2
    obtain ⟨t, ht, hfields⟩ := hread hop.symm
    rw [ht, fields_injective (h.trans hfields.symm)]

theorem toUInt8_mod_flag (b : Bool) (n : Nat) :
    b.toUInt8 % .ofNat (2 ^ (Field.flag n).width) = b.toUInt8 := by
  cases b <;> rfl

theorem fields_cut (s : Sample) :
    s.cut.fields = s.fields.map fun p => (p.1, p.2 % .ofNat (2 ^ p.1.width)) := by
  simp only [fields, cut, List.map_cons, List.map_nil, Layout.skipInvalid, Layout.noSchedule,
    Layout.syncStart, Layout.minPack, Layout.coordExtended, Layout.samplerExtended, Layout.lodExtended,
    Layout.destPrimAttr, toUInt8_mod_flag]
  rfl

/-- The word of an instruction is read as the instruction, with its numbers reduced. -/
theorem decode?_encode (s : Sample) : decode? s.encode = some s.cut := by
  refine decode?_eq_some.2 ?_
  calc s.cut.fields = s.fields.map fun p => (p.1, p.2 % .ofNat (2 ^ p.1.width)) := s.fields_cut
    _ = s.fields.map fun p => (p.1, p.1.get s.encode) :=
      List.map_congr_left fun p hp => by rw [s.get_encode p hp]
    _ = (s.fields.map Prod.fst).map fun f => (f, f.get s.encode) := by rw [List.map_map]; rfl
    _ = layout.map fun f => (f, f.get s.encode) := by rw [s.fst_fields]

/-- Writing what was read clears the reserved bit and nothing else. -/
theorem encode_of_decode? {w : UInt64} {s : Sample} (h : decode? w = some s) :
    s.encode = w &&& ~~~reservedBit := by
  have hreserved : ∀ j : Fin 64, (~~~reservedBit).toNat.testBit j.val =
      layout.any fun f => decide (f.Contains j.val) := by decide +kernel
  refine UInt64.toNat_inj.1 (Nat.eq_of_testBit_eq fun j => ?_)
  unfold encode
  rw [decode?_eq_some.1 h, Field.testBit_assemble_get layout_formed, UInt64.toNat_and, Nat.testBit_and,
    Bool.and_comm]
  by_cases hj : j < 64
  · rw [hreserved ⟨j, hj⟩]
  · have hhigh : w.toNat.testBit j = false :=
      Nat.testBit_lt_two_pow (Nat.lt_of_lt_of_le w.toNat_lt (Nat.pow_le_pow_right (by decide) (by omega)))
    rw [hhigh, Bool.false_and, Bool.false_and]

/-- The operation code stands in the top five bits. -/
theorem isSome_decode? (w : UInt64) : (decode? w).isSome ↔ w >>> 59 = 0b11100 := by
  have htop : w.toNat / 2 ^ 59 < 32 := by
    have := w.toNat_lt
    omega
  have hget : (Layout.operation.get w).toNat = w.toNat / 2 ^ 59 := by
    show w.toNat / 2 ^ 59 % 2 ^ 5 % 2 ^ 8 = _
    omega
  have hshift : (w >>> 59).toNat = w.toNat / 2 ^ 59 := by
    rw [UInt64.toNat_shiftRight, Nat.shiftRight_eq_div_pow]
    rfl
  have hread : (decode? w).isSome ↔ Layout.operation.get w = operation := by
    unfold decode?
    split <;> simp [*]
  rw [hread, ← UInt8.toNat_inj, ← UInt64.toNat_inj, hget, hshift]
  rfl

/-- Sample instructions are the words with the operation code in the top five bits. Reading one and
writing it again clears the reserved bit and keeps all others; writing an instruction and reading it
again reduces each number to the width of its field, so that instructions whose numbers fit have
words of their own. Every bit but the reserved one is in exactly one field. -/
theorem word_round_trip :
    (∀ w, (decode? w).isSome ↔ w >>> 59 = 0b11100) ∧
    (∀ w, (decode? w).map encode =
      if w >>> 59 = 0b11100 then some (w &&& ~~~reservedBit) else none) ∧
    (∀ s : Sample, decode? s.encode = some s.cut) ∧
    Set.InjOn encode {s | s.InWidth} ∧
    ∀ j : Fin 64, layout.countP (·.Contains j) = if j = 28 then 0 else 1 := by
  refine ⟨isSome_decode?, fun w => ?_, decode?_encode, fun s hs t ht h => ?_, countP_layout⟩
  · by_cases hop : w >>> 59 = 0b11100
    · obtain ⟨s, hs⟩ := Option.isSome_iff_exists.1 ((isSome_decode? w).2 hop)
      rw [if_pos hop, hs, Option.map_some, encode_of_decode? hs]
    · have hnone : decode? w = none := by
        rw [← Option.not_isSome_iff_eq_none, isSome_decode?]
        exact hop
      rw [if_neg hop, hnone, Option.map_none]
  · have hsome : some s.cut = some t.cut := by rw [← s.decode?_encode, ← t.decode?_encode, h]
    rw [← InWidth.cut hs, ← InWidth.cut ht]
    exact Option.some.inj hsome

end Sample

end TextureLift
