import TextureLift.Module.Build
import TextureLift.Proofs.Action
import TextureLift.Proofs.Machine.Step
import TextureLift.Proofs.Module.Lanes

/-!
# Instructions of the body

The specifications of the instructions that lowering emits, one for each form. An instruction whose
operands hold lanes of the right kinds is executed, and its result holds the lanes that the machine
computes for it:

    R.Holds b value .f32 bits →
      emit .convertFToU t [value.word]  gives an id that holds  bits.map Single.toUnsigned

What it means that an id holds lanes is left to a *reckoning* `R`, with what the specifications need of
it: types and constants can be declared, and an instruction can be emitted if every machine that has
the values which ids hold computes its lanes. There is one for the run of a module from its start
(`Environment.reckoning`) and one for the run of any part of its code (`Passage.reckoning`).
-/

namespace TextureLift

open Builder Build Discipline Number

/-! ## Operands -/

namespace Machine

variable {m : Machine} {b : Builder} {i : Inst} {n : Nat} {r : Ref}

theorem bind_ok {ε α β : Type} {x : Except ε α} {f : α → Except ε β} {v : α} {w : β}
    (hx : x = .ok v) (hf : f v = .ok w) : (x >>= f) = .ok w := by
  rw [hx]
  exact hf

theorem operand_of_lookup {v : Value} (hn : i.operands[n]? = some r.word)
    (hv : m.lookup b r = .ok v) : m.operand b i n = .ok v := by
  unfold operand Inst.operandRef? expect
  rw [hn]
  exact hv

theorem floats_of_lookup {bits : List UInt32} (hn : i.operands[n]? = some r.word)
    (hv : m.lookup b r = .ok (.lanes .f32 bits)) : m.floats b i n = .ok bits := by
  unfold floats
  rw [operand_of_lookup hn hv]
  rfl

theorem scalar_of_lookup {k : ScalarKind} {w : UInt32} {bits : List UInt32}
    (hn : i.operands[n]? = some r.word) (hv : m.lookup b r = .ok (.lanes k (w :: bits))) :
    m.scalar b i n = .ok w := by
  unfold scalar
  rw [operand_of_lookup hn hv]
  rfl

theorem ofResultType_of_kind {t : Ref} {k : ScalarKind} (ht : i.resultType = some t)
    (hk : b.scalarKind? t = some k) (bits : List UInt32) :
    ofResultType b i bits = .ok (.lanes k bits) := by
  unfold ofResultType expect
  rw [ht]
  simp only [Option.bind_some, hk]
  rfl

theorem step_of_eval (texels : Texels) {v : Value} (hop : i.opcode.isPure)
    (hv : m.eval b i = .ok v) : m.step b texels i = .ok (m.define i v) := by
  rw [step_of_isPure hop, hv]
  rfl

/-- Under the table of a larger module, the machine has the values that ids hold and bear. -/
structure Represents (m : Machine) (whole b : Builder)
    (Holds Bears : Builder → Ref → ScalarKind → List UInt32 → Prop) : Prop where
  table : TableLe b whole
  holds : ∀ {id k bits}, Holds b id k bits → m.lookup whole id = .ok (.lanes k bits)
  bears : ∀ {id k bits}, Bears b id k bits → ∃ v, m.lookup whole id = .ok v ∧ v.bits = bits

end Machine

namespace Environment

variable {b : Builder}

/-- Operand words that may stand in an instruction: values, variables and the import. -/
def Usable (b : Builder) (words : List UInt32) : Prop :=
  ∀ w ∈ words, (b.typeOf? ⟨w⟩).isSome ∨ b.extSet = some ⟨w⟩

theorem Usable.nil : Usable b [] := by
  intro w hw
  cases hw

theorem Usable.cons {r : Ref} {words : List UInt32} (hr : (b.typeOf? r).isSome)
    (h : Usable b words) : Usable b (r.word :: words) := by
  intro w hw
  rcases List.mem_cons.1 hw with rfl | hw
  · exact .inl hr
  · exact h w hw

end Environment

/-! ## Reckonings -/

/-- What ids stand for while a module is built, and what instructions need of it. -/
structure Reckoning where
  /-- Actions whose code only computes. -/
  quiet : Discipline Builder
  /-- The type has `n` lanes of a kind. -/
  Lanes : Builder → Ref → ScalarKind → Nat → Prop
  /-- The id is typed as lanes of a kind, and its value is lanes of this kind. -/
  Holds : Builder → Ref → ScalarKind → List UInt32 → Prop
  /-- The id is typed as lanes of a kind, and the lanes of its value may be of another. -/
  Bears : Builder → Ref → ScalarKind → List UInt32 → Prop
  /-- An instruction may have `n` operands. -/
  Admits : Nat → Prop
  table : ∀ {b b'}, quiet.leads b b' → TableLe b b'
  lanes_of_laneType : ∀ {b t k} {n : UInt32}, b.LaneType t k n → Lanes b t k n.toNat
  lanes_of_lanes : ∀ {b t k n}, Lanes b t k n → b.Lanes t k n
  lanes_contained : ∀ {b t k n}, Lanes b t k n → Lanes b (b.containedType t) k 1
  lanes_mono : ∀ {b b' t k n}, Lanes b t k n → quiet.leads b b' → Lanes b' t k n
  holds_mono : ∀ {b b' id k bits}, Holds b id k bits → quiet.leads b b' → Holds b' id k bits
  bears_mono : ∀ {b b' id k bits}, Bears b id k bits → quiet.leads b b' → Bears b' id k bits
  bears_of_holds : ∀ {b id k bits}, Holds b id k bits → Bears b id k bits
  typed_of_bears : ∀ {b id k bits}, Bears b id k bits →
    ∃ t, b.typeOf? id = some t ∧ Lanes b t k bits.length
  admits_of_le : ∀ {n}, n ≤ 8 → Admits n
  type_ensures : ∀ {b decl}, (∀ r ∈ decl.refs, (b.typeDecl? r).isSome) →
    quiet.Ensures (type decl) b fun id b' => b'.typeDecl? id = some decl
  constant_ensures : ∀ {b t k w}, b.typeDecl? t = some (ScalarKind.decl k) →
    quiet.Ensures (intern (.constant t w)) b fun id b' => Holds b' id k [w]
  importExtSet_ensures : ∀ {b}, quiet.Ensures importExtSet b fun id b' => b'.extSet = some id
  /-- An instruction for which every machine that knows the values of ids computes the same. -/
  emit_ensures : ∀ {b op t ops k bits}, op.isPure → Admits ops.length → Lanes b t k bits.length →
    Environment.Usable b (Inst.mk op (some t) none ops).idWords →
    (∀ (m : Machine) whole, m.Represents whole b Holds Bears → ∀ id,
      m.eval whole ⟨op, some t, some id, ops⟩ = .ok (.lanes k bits)) →
    quiet.Ensures (emit op t ops) b fun id b' => Holds b' id k bits

theorem Build.typeOrNone_ensures {D : Discipline Builder} {b : Builder} {value t : Ref}
    (ht : b.typeOf? value = some t) :
    D.Ensures (typeOrNone value) b fun t' b' => t' = t ∧ b' = b := by
  refine Ensures.of_ok (v := t) (t := b) ?_ fun hs => ⟨hs, D.refl b, rfl, rfl⟩
  show Except.ok (((b.typeOf? value).getD .none), b) = _
  rw [ht]
  rfl

namespace Reckoning

variable {R : Reckoning} {b b' : Builder} {value t : Ref} {k k' : ScalarKind} {bits : List UInt32}

theorem carries_of_bears (h : R.Bears b value k bits) : b.Carries value k bits.length := by
  obtain ⟨t, ht, hl⟩ := R.typed_of_bears h
  exact ⟨t, ht, R.lanes_of_lanes hl⟩

theorem carries_of_holds (h : R.Holds b value k bits) : b.Carries value k bits.length :=
  carries_of_bears (R.bears_of_holds h)

theorem isSome_of_bears (h : R.Bears b value k bits) : (b.typeOf? value).isSome := by
  obtain ⟨t, ht, -⟩ := R.typed_of_bears h
  rw [ht]
  rfl

theorem isSome_of_holds (h : R.Holds b value k bits) : (b.typeOf? value).isSome :=
  isSome_of_bears (R.bears_of_holds h)

/-- The kind of a result, under the table of the larger module. -/
theorem scalarKind_of_lanes {m : Machine} {whole : Builder} {n : Nat}
    (hm : m.Represents whole b R.Holds R.Bears) (h : R.Lanes b t k n) : whole.scalarKind? t = some k :=
  hm.table.scalarKind (R.lanes_of_lanes h).kind

/-! ## Types and constants -/

variable (R)

theorem scalarType_ensures (k : ScalarKind) :
    R.quiet.Ensures (type k.decl) b fun id b' => b'.typeDecl? id = some k.decl :=
  R.type_ensures (by cases k <;> simp [ScalarKind.decl, TypeDecl.refs])

theorem vectorType_ensures {c : Ref} (n : UInt32) (hc : b.typeDecl? c = some k.decl) :
    R.quiet.Ensures (vectorType c n) b fun id b' => b'.LaneType id k n := by
  unfold vectorType
  split
  · rename_i hn
    exact Ensures.pure _ (.inl ⟨hn, hc⟩)
  · rename_i hn
    refine (R.type_ensures (by simp [TypeDecl.refs, hc])).imp fun t b' hq ht => ?_
    exact .inr ⟨hn, c, ht, (R.table hq).typeDecl hc⟩

theorem floatVectorType_ensures (n : UInt32) :
    R.quiet.Ensures (floatVectorType n) b fun id b' => b'.LaneType id .f32 n :=
  (R.scalarType_ensures .f32).bind fun _ _ _ h => R.vectorType_ensures n h

theorem floatConstant_ensures (w : UInt32) :
    R.quiet.Ensures (floatConstant w) b fun id b' => R.Holds b' id .f32 [w] :=
  (R.scalarType_ensures .f32).bind fun _ _ _ h => R.constant_ensures h

theorem uintConstant_ensures (w : UInt32) :
    R.quiet.Ensures (uintConstant w) b fun id b' => R.Holds b' id .u32 [w] :=
  (R.scalarType_ensures .u32).bind fun _ _ _ h => R.constant_ensures h

theorem intConstant_ensures (w : UInt32) :
    R.quiet.Ensures (intConstant w) b fun id b' => R.Holds b' id .i32 [w] :=
  (R.scalarType_ensures .i32).bind fun _ _ _ h => R.constant_ensures h

/-- A scalar type, as the type of one lane. -/
theorem lanes_of_decl (h : b.typeDecl? t = some k.decl) : R.Lanes b t k 1 :=
  R.lanes_of_laneType (n := 1) (.inl ⟨rfl, h⟩)

variable {R}

/-! ## Conversions -/

/-- A cast gives lanes the kind of its type, whatever kind they have. -/
theorem bitcast_ensures (hv : R.Bears b value k' bits) (ht : R.Lanes b t k bits.length) :
    R.quiet.Ensures (bitcast t value) b fun id b' => R.Holds b' id k bits := by
  refine R.emit_ensures rfl (R.admits_of_le (by simp)) ht (.cons (isSome_of_bears hv) .nil)
    fun m whole hm id => ?_
  obtain ⟨v, hlookup, rfl⟩ := hm.bears hv
  exact Machine.bind_ok (Machine.operand_of_lookup rfl hlookup)
    (Machine.ofResultType_of_kind rfl (scalarKind_of_lanes hm ht) _)

theorem convertSToF_ensures (hv : R.Holds b value k' bits) (ht : R.Lanes b t .f32 bits.length) :
    R.quiet.Ensures (emit .convertSToF t [value.word]) b
      fun id b' => R.Holds b' id .f32 (bits.map Single.ofSigned) := by
  refine R.emit_ensures rfl (R.admits_of_le (by simp)) (by rwa [List.length_map])
    (.cons (isSome_of_holds hv) .nil) fun m whole hm id => ?_
  exact Machine.bind_ok (Machine.operand_of_lookup rfl (hm.holds hv)) rfl

theorem convertUToF_ensures (hv : R.Holds b value k' bits) (ht : R.Lanes b t .f32 bits.length) :
    R.quiet.Ensures (emit .convertUToF t [value.word]) b
      fun id b' => R.Holds b' id .f32 (bits.map Single.ofUnsigned) := by
  refine R.emit_ensures rfl (R.admits_of_le (by simp)) (by rwa [List.length_map])
    (.cons (isSome_of_holds hv) .nil) fun m whole hm id => ?_
  exact Machine.bind_ok (Machine.operand_of_lookup rfl (hm.holds hv)) rfl

theorem convertFToS_ensures (hv : R.Holds b value .f32 bits) (ht : R.Lanes b t .i32 bits.length) :
    R.quiet.Ensures (emit .convertFToS t [value.word]) b
      fun id b' => R.Holds b' id .i32 (bits.map Single.toSigned) := by
  refine R.emit_ensures rfl (R.admits_of_le (by simp)) (by rwa [List.length_map])
    (.cons (isSome_of_holds hv) .nil) fun m whole hm id => ?_
  exact Machine.bind_ok (Machine.floats_of_lookup rfl (hm.holds hv)) rfl

theorem convertFToU_ensures (hv : R.Holds b value .f32 bits) (ht : R.Lanes b t .u32 bits.length) :
    R.quiet.Ensures (emit .convertFToU t [value.word]) b
      fun id b' => R.Holds b' id .u32 (bits.map Single.toUnsigned) := by
  refine R.emit_ensures rfl (R.admits_of_le (by simp)) (by rwa [List.length_map])
    (.cons (isSome_of_holds hv) .nil) fun m whole hm id => ?_
  exact Machine.bind_ok (Machine.floats_of_lookup rfl (hm.holds hv)) rfl

/-- The product with one number in all lanes. -/
theorem fMul_ensures {other : Ref} {y : UInt32} (hv : R.Holds b value .f32 bits)
    (ho : R.Holds b other .f32 (List.replicate bits.length y)) (ht : R.Lanes b t .f32 bits.length) :
    R.quiet.Ensures (emit .fMul t [value.word, other.word]) b
      fun id b' => R.Holds b' id .f32 (bits.map fun w => Single.mul w y) := by
  refine R.emit_ensures rfl (R.admits_of_le (by simp)) (by rwa [List.length_map])
    (.cons (isSome_of_holds hv) (.cons (isSome_of_holds ho) .nil)) fun m whole hm id => ?_
  refine Machine.bind_ok (Machine.floats_of_lookup rfl (hm.holds hv))
    (Machine.bind_ok (Machine.floats_of_lookup rfl (hm.holds ho)) ?_)
  have hzip : List.zipWith Single.mul bits (List.replicate bits.length y) =
      bits.map fun w => Single.mul w y :=
    List.ext_getElem (by simp) fun i _ _ => by simp
  rw [if_pos List.length_replicate.symm, hzip]
  rfl

/-! ## Bit fields -/

section BitFields

variable {base offset count : Ref} {k₀ k₁ k₂ k₃ : ScalarKind} {w o c : UInt32}
  (hb : R.Holds b base k₀ [w]) (ho : R.Holds b offset k₁ [o]) (hn : R.Holds b count k₂ [c])
  (hlt : o < 32) (ht : R.Lanes b t k 1)

include hb ho hn hlt ht

/-- The signed field of a word. -/
theorem bitFieldSExtract_ensures :
    R.quiet.Ensures (emit .bitFieldSExtract t [base.word, offset.word, count.word]) b
      fun id b' => R.Holds b' id k [BitField.extractSigned w o c] := by
  refine R.emit_ensures rfl (R.admits_of_le (by simp)) ht (.cons (isSome_of_holds hb)
    (.cons (isSome_of_holds ho) (.cons (isSome_of_holds hn) .nil))) fun m whole hm id => ?_
  exact Machine.bind_ok (Machine.scalar_of_lookup rfl (hm.holds hb))
    (Machine.bind_ok (Machine.scalar_of_lookup rfl (hm.holds ho))
      (Machine.bind_ok (Machine.scalar_of_lookup rfl (hm.holds hn))
        (Machine.bind_ok (if_pos hlt)
          (Machine.ofResultType_of_kind rfl (scalarKind_of_lanes hm ht) _))))

/-- The unsigned field of a word. -/
theorem bitFieldUExtract_ensures :
    R.quiet.Ensures (emit .bitFieldUExtract t [base.word, offset.word, count.word]) b
      fun id b' => R.Holds b' id k [BitField.extract w o c] := by
  refine R.emit_ensures rfl (R.admits_of_le (by simp)) ht (.cons (isSome_of_holds hb)
    (.cons (isSome_of_holds ho) (.cons (isSome_of_holds hn) .nil))) fun m whole hm id => ?_
  exact Machine.bind_ok (Machine.scalar_of_lookup rfl (hm.holds hb))
    (Machine.bind_ok (Machine.scalar_of_lookup rfl (hm.holds ho))
      (Machine.bind_ok (Machine.scalar_of_lookup rfl (hm.holds hn))
        (Machine.bind_ok (if_pos hlt)
          (Machine.ofResultType_of_kind rfl (scalarKind_of_lanes hm ht) _))))

/-- A word with a field replaced. -/
theorem bitFieldInsert_ensures {y : UInt32} (hv : R.Holds b value k₃ [y]) :
    R.quiet.Ensures (emit .bitFieldInsert t [base.word, value.word, offset.word, count.word]) b
      fun id b' => R.Holds b' id k [BitField.insert w y o c] := by
  refine R.emit_ensures rfl (R.admits_of_le (by simp)) ht (.cons (isSome_of_holds hb)
    (.cons (isSome_of_holds hv) (.cons (isSome_of_holds ho) (.cons (isSome_of_holds hn) .nil))))
    fun m whole hm id => ?_
  exact Machine.bind_ok (Machine.scalar_of_lookup rfl (hm.holds hb))
    (Machine.bind_ok (Machine.scalar_of_lookup rfl (hm.holds hv))
      (Machine.bind_ok (Machine.scalar_of_lookup rfl (hm.holds ho))
        (Machine.bind_ok (Machine.scalar_of_lookup rfl (hm.holds hn))
          (Machine.bind_ok (if_pos hlt)
            (Machine.ofResultType_of_kind rfl (scalarKind_of_lanes hm ht) _)))))

end BitFields

/-! ## Composites -/

section Composites

variable {composite : Ref} {index y : UInt32}

theorem expect_of_getElem? {i : Inst} (hy : bits[index.toNat]? = some y) :
    Machine.expect i bits[index.toNat]? = .ok y := by
  rw [hy]
  rfl

/-- The lane of a composite at an index. -/
theorem extract_ensures (hv : R.Bears b composite k bits) (hy : bits[index.toNat]? = some y) :
    R.quiet.Ensures (extract composite index) b fun id b' => R.Holds b' id k [y] := by
  obtain ⟨t, ht, hl⟩ := R.typed_of_bears hv
  refine (typeOrNone_ensures ht).bind fun t' b₁ _ h => ?_
  obtain ⟨rfl, rfl⟩ := h
  have hone := R.lanes_contained hl
  refine Ensures.get_bind (R.emit_ensures rfl (R.admits_of_le (by simp)) hone
    (.cons (isSome_of_bears hv) .nil) fun m whole hm id => ?_)
  obtain ⟨v, hlookup, rfl⟩ := hm.bears hv
  exact Machine.bind_ok (Machine.operand_of_lookup rfl hlookup) (Machine.bind_ok rfl
    (Machine.bind_ok (expect_of_getElem? hy)
      (Machine.ofResultType_of_kind rfl (scalarKind_of_lanes hm hone) _)))

/-- The lane of a vector at an index that is a value. -/
theorem vectorExtractDynamic_ensures {position : Ref} (hv : R.Bears b composite k' bits)
    (hp : R.Holds b position .i32 [index]) (hy : bits[index.toNat]? = some y)
    (ht : R.Lanes b t k 1) :
    R.quiet.Ensures (emit .vectorExtractDynamic t [composite.word, position.word]) b
      fun id b' => R.Holds b' id k [y] := by
  refine R.emit_ensures rfl (R.admits_of_le (by simp)) ht
    (.cons (isSome_of_bears hv) (.cons (isSome_of_holds hp) .nil)) fun m whole hm id => ?_
  obtain ⟨v, hlookup, rfl⟩ := hm.bears hv
  exact Machine.bind_ok (Machine.operand_of_lookup rfl hlookup)
    (Machine.bind_ok (Machine.scalar_of_lookup rfl (hm.holds hp))
      (Machine.bind_ok (expect_of_getElem? hy)
        (Machine.ofResultType_of_kind rfl (scalarKind_of_lanes hm ht) _)))

/-- A composite with the lane at an index replaced. -/
theorem insert_ensures {object : Ref} (hv : R.Bears b composite k bits)
    (ho : R.Holds b object k' [y]) (hi : index.toNat < bits.length) :
    R.quiet.Ensures (insert object composite index) b
      fun id b' => R.Holds b' id k (bits.set index.toNat y) := by
  obtain ⟨t, ht, hl⟩ := R.typed_of_bears hv
  refine (typeOrNone_ensures ht).bind fun t' b₁ _ h => ?_
  obtain ⟨rfl, rfl⟩ := h
  refine R.emit_ensures rfl (R.admits_of_le (by simp)) (by rwa [List.length_set])
    (.cons (isSome_of_holds ho) (.cons (isSome_of_bears hv) .nil)) fun m whole hm id => ?_
  obtain ⟨v, hlookup, rfl⟩ := hm.bears hv
  exact Machine.bind_ok (Machine.scalar_of_lookup rfl (hm.holds ho))
    (Machine.bind_ok (Machine.operand_of_lookup rfl hlookup) (Machine.bind_ok rfl
      ((if_pos hi).trans (Machine.ofResultType_of_kind rfl (scalarKind_of_lanes hm hl) _))))

/-- Lanes of two vectors, numbered through both. -/
theorem shuffle_ensures {other : Ref} {bits' lanes out : List UInt32}
    (hv : R.Bears b composite k' bits) (ho : R.Bears b other k' bits')
    (hout : List.Forall₂ (fun lane y => (bits ++ bits')[lane.toNat]? = some y) lanes out)
    (hshort : R.Admits (out.length + 2)) (ht : R.Lanes b t k out.length) :
    R.quiet.Ensures (shuffle t composite other lanes) b fun id b' => R.Holds b' id k out := by
  refine R.emit_ensures rfl (by rw [← hout.length_eq] at hshort; exact hshort) ht
    (.cons (isSome_of_bears hv) (.cons (isSome_of_bears ho) .nil)) fun m whole hm id => ?_
  have hlanes (i : Inst) : lanes.mapM (fun lane => Machine.expect i (bits ++ bits')[lane.toNat]?) =
      .ok out := by
    clear ht hshort
    induction hout with
    | nil => rfl
    | cons hy _ ih =>
      rw [List.mapM_cons]
      exact Machine.bind_ok (expect_of_getElem? hy) (Machine.bind_ok ih rfl)
  obtain ⟨v, hlookup, rfl⟩ := hm.bears hv
  obtain ⟨v', hlookup', rfl⟩ := hm.bears ho
  exact Machine.bind_ok (Machine.operand_of_lookup rfl hlookup)
    (Machine.bind_ok (Machine.operand_of_lookup rfl hlookup')
      (Machine.bind_ok (hlanes _) (Machine.ofResultType_of_kind rfl (scalarKind_of_lanes hm ht) _)))

/-- Each id holds the number at its position. -/
def HoldEach (R : Reckoning) (b : Builder) : List Ref → List UInt32 → Prop :=
  List.Forall₂ fun id w => R.Holds b id .f32 [w]

variable {ids : List Ref}

theorem HoldEach.mono (h : R.HoldEach b ids bits) (hq : R.quiet.leads b b') :
    R.HoldEach b' ids bits :=
  List.Forall₂.imp (fun _ _ h => R.holds_mono h hq) h

theorem HoldEach.replicate {id : Ref} {w : UInt32} (h : R.Holds b id .f32 [w]) (n : Nat) :
    R.HoldEach b (List.replicate n id) (List.replicate n w) := by
  unfold HoldEach
  induction n with
  | zero => exact .nil
  | succ n ih => exact .cons h ih

theorem HoldEach.usable (h : R.HoldEach b ids bits) : Environment.Usable b (ids.map Ref.word) := by
  unfold HoldEach at h
  induction h with
  | nil => exact .nil
  | cons hw _ ih => exact .cons (isSome_of_holds hw) ih

theorem HoldEach.lookups {m : Machine} {whole : Builder} (h : R.HoldEach b ids bits)
    (hm : m.Represents whole b R.Holds R.Bears) :
    (ids.map Ref.word).mapM (fun word => m.lookup whole ⟨word⟩) =
      .ok (bits.map fun w => .lanes .f32 [w]) := by
  unfold HoldEach at h
  induction h with
  | nil => rfl
  | cons hw _ ih =>
    rw [List.map_cons, List.mapM_cons]
    exact Machine.bind_ok (hm.holds hw) (Machine.bind_ok ih rfl)

/-- The vector of some numbers. -/
theorem construct_ensures (h : R.HoldEach b ids bits) (hshort : R.Admits bits.length)
    (ht : R.Lanes b t .f32 bits.length) :
    R.quiet.Ensures (construct t ids) b fun id b' => R.Holds b' id .f32 bits := by
  have hadmits : R.Admits (ids.map Ref.word).length := by
    rw [List.length_map, List.Forall₂.length_eq h]
    exact hshort
  refine R.emit_ensures rfl hadmits ht h.usable fun m whole hm id =>
    Machine.bind_ok (h.lookups hm) ?_
  have hbits : (bits.map fun w => Value.lanes .f32 [w]).flatMap Value.bits = bits := by
    rw [List.flatMap_map]
    exact List.flatMap_singleton' bits
  rw [hbits]
  exact Machine.ofResultType_of_kind rfl (scalarKind_of_lanes hm ht) _

end Composites

/-! ## Extended instructions -/

/-- An extended instruction, whose set is imported on first use. -/
theorem extInst_lanes {op : ExtOpcode} {args : List Ref} (hshort : args.length ≤ 4)
    (ht : R.Lanes b t k bits.length)
    (hargs : ∀ b', R.quiet.leads b b' → Environment.Usable b' (args.map Ref.word))
    (heval : ∀ b', R.quiet.leads b b' → ∀ (m : Machine) whole, m.Represents whole b' R.Holds R.Bears →
      ∀ (set : UInt32) (id : Ref), m.evalExt whole
        ⟨.extInst, some t, some id, set :: op.number :: args.map Ref.word⟩ = .ok (.lanes k bits)) :
    R.quiet.Ensures (extInst t op args) b fun id b' => R.Holds b' id k bits := by
  refine R.importExtSet_ensures.bind fun set b' hq hset => ?_
  refine R.emit_ensures rfl (R.admits_of_le ?_) (R.lanes_mono ht hq) (fun w hw => ?_)
    fun m whole hm id => heval b' hq m whole hm set.word id
  · rw [List.length_cons, List.length_cons, List.length_map]
    omega
  · rcases List.mem_cons.1 hw with rfl | hw
    · exact .inr hset
    · exact hargs b' hq w hw

theorem round_ensures (hv : R.Holds b value .f32 bits) (ht : R.Lanes b t .f32 bits.length) :
    R.quiet.Ensures (extInst t .round [value]) b
      fun id b' => R.Holds b' id .f32 (bits.map Single.roundAway) := by
  refine extInst_lanes (by simp) (by rwa [List.length_map])
    (fun b' hq => .cons (isSome_of_holds (R.holds_mono hv hq)) .nil) fun b' hq m whole hm set id => ?_
  have h0 := hm.holds (R.holds_mono hv hq)
  exact Machine.bind_ok rfl (Machine.bind_ok (Machine.floats_of_lookup rfl h0) rfl)

/-- A clamp whose bounds are the same in all lanes. -/
theorem fClamp_ensures {lower upper : Ref} {lo hi : UInt32} (hv : R.Holds b value .f32 bits)
    (hlo : R.Holds b lower .f32 (List.replicate bits.length lo))
    (hhi : R.Holds b upper .f32 (List.replicate bits.length hi))
    (ht : R.Lanes b t .f32 bits.length) :
    R.quiet.Ensures (extInst t .fClamp [value, lower, upper]) b
      fun id b' => R.Holds b' id .f32 (bits.map fun w => Single.clamp w lo hi) := by
  refine extInst_lanes (by simp) (by rwa [List.length_map])
    (fun b' hq => .cons (isSome_of_holds (R.holds_mono hv hq)) (.cons
      (isSome_of_holds (R.holds_mono hlo hq)) (.cons (isSome_of_holds (R.holds_mono hhi hq)) .nil)))
    fun b' hq m whole hm set id => ?_
  have h0 := hm.holds (R.holds_mono hv hq)
  have h1 := hm.holds (R.holds_mono hlo hq)
  have h2 := hm.holds (R.holds_mono hhi hq)
  refine Machine.bind_ok rfl (Machine.bind_ok (Machine.floats_of_lookup rfl h0)
    (Machine.bind_ok (Machine.floats_of_lookup rfl h1)
      (Machine.bind_ok (Machine.floats_of_lookup rfl h2) ?_)))
  -- within the lanes of the value, the bounds are those of the replicated constants
  have hbound (w d : UInt32) (j : Nat) (hj : j < bits.length) :
      Machine.boundAt (List.replicate bits.length w) j d = w := by
    unfold Machine.boundAt
    rw [List.getElem?_replicate, if_pos hj]
    rfl
  congr 2
  refine List.ext_getElem (by simp) fun j h1 _ => ?_
  have hj : j < bits.length := by simpa using h1
  simp only [List.getElem_mapIdx, List.getElem_map, hbound _ _ j hj]

theorem packHalf2x16_ensures {lo hi : UInt32} (hv : R.Holds b value .f32 [lo, hi])
    (ht : R.Lanes b t .u32 1) :
    R.quiet.Ensures (extInst t .packHalf2x16 [value]) b
      fun id b' => R.Holds b' id .u32 [Half.pack (Half.ofSingle lo) (Half.ofSingle hi)] := by
  refine extInst_lanes (by simp) ht
    (fun b' hq => .cons (isSome_of_holds (R.holds_mono hv hq)) .nil) fun b' hq m whole hm set id => ?_
  have h0 := hm.holds (R.holds_mono hv hq)
  exact Machine.bind_ok rfl (Machine.bind_ok (Machine.floats_of_lookup rfl h0) rfl)

theorem unpackHalf2x16_ensures {w : UInt32} (hv : R.Holds b value k' [w]) (ht : R.Lanes b t .f32 2) :
    R.quiet.Ensures (extInst t .unpackHalf2x16 [value]) b
      fun id b' => R.Holds b' id .f32 [Half.toSingle (Half.low w), Half.toSingle (Half.high w)] := by
  refine extInst_lanes (by simp) ht
    (fun b' hq => .cons (isSome_of_holds (R.holds_mono hv hq)) .nil) fun b' hq m whole hm set id => ?_
  have h0 := hm.holds (R.holds_mono hv hq)
  exact Machine.bind_ok rfl (Machine.bind_ok (Machine.scalar_of_lookup rfl h0) rfl)

end Reckoning

end TextureLift
