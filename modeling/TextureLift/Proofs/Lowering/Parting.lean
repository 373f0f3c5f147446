import TextureLift.Proofs.Lowering.Instruction
import TextureLift.Proofs.Lowering.Store
import TextureLift.Proofs.Machine.Flow

/-!
# Code that is parted by variables

Which side of a set of variables emitted values come from. Actions that emit computations give results
of the side of their arguments, whichever it is:

    b.Clear V side x → (calm V).Ensures (bitcast t x) b fun id b' => b'.Clear V side id

Loads are on the side of their variable, texels on the outside. What is loaded from a variable of the
set is `Sided` only: code may take a lane of it and nothing else. Nothing is asked of types here, and
nothing of the memory: modules are taken as they come.
-/

namespace TextureLift

open Build Discipline

/-! ## Instructions of requests -/

namespace FetchLod

/-- The opcode of a request. -/
def opcode : FetchLod → Opcode
  | implicit => .imageSampleImplicitLod
  | projective => .imageSampleProjImplicitLod
  | bias _ | gradient _ _ => .imageSampleExplicitLod

/-- The operands after the image and the coordinate: what they stand for, and their ids. -/
def words : FetchLod → List UInt32
  | implicit | projective => []
  | bias level => [Machine.lodBit, level.word]
  | gradient dx dy => [Machine.gradBit, dx.word, dy.word]

theorem isImageSample_opcode (lod : FetchLod) : lod.opcode.isImageSample = true := by
  cases lod <;> rfl

end FetchLod

/-- The instruction samples an image that the code loads from a variable. -/
def Inst.Asks (code : List Inst) (texture : Ref) (lod : FetchLod) (i : Inst) : Prop :=
  i.opcode = lod.opcode ∧ ∃ image coord : Ref, i.operands = image.word :: coord.word :: lod.words ∧
    ∃ t, Inst.mk .load (some t) (some image) [texture.word] ∈ code

theorem Inst.Asks.mono {code code' : List Inst} {texture : Ref} {lod : FetchLod} {i : Inst}
    (h : i.Asks code texture lod) (hcode : code ⊆ code') : i.Asks code' texture lod := by
  obtain ⟨hop, image, coord, hoperands, t, hload⟩ := h
  exact ⟨hop, image, coord, hoperands, t, hcode hload⟩

namespace Builder

variable {V : Ref → Prop} {b b' b'' : Builder} {side : Side} {id : Ref}

/-- The id is defined, is none of the variables, and its value comes from the given side. -/
structure Sided (b : Builder) (V : Ref → Prop) (side : Side) (id : Ref) : Prop where
  defined : (b.definition? id).isSome
  other : ¬ V id
  clear : side.Clear V b.body.toList id

/-- The same of an id that is not as it was loaded from one of the variables. -/
structure Clear (b : Builder) (V : Ref → Prop) (side : Side) (id : Ref) : Prop
    extends Sided b V side id where
  derived : ¬ LoadedFrom V b.body.toList id

/-- What is on the outside is not loaded from the variables. -/
theorem Sided.clear_without (h : b.Sided V .without id) : b.Clear V .without id :=
  ⟨h, fun ⟨_, hi, hloads, hr⟩ => h.clear (reached_of_mem hi hloads hr)⟩

/-- Computations have operands of one side, and what is stored is on the outside. -/
structure Parted (V : Ref → Prop) (b : Builder) : Prop where
  size_lt : b.definitions.size < UInt32.size
  vars : ∀ id, V id → ∃ t, b.definition? id = some (.var t .priv)
  imported : ∀ id, b.extSet = some id → b.definition? id = some .plain
  values : ∀ i ∈ b.body.toList, i.opcode.yields = true → ∀ id, i.result = some id →
    ∃ t, b.definition? id = some (.value t)
  loads : ∀ i ∈ b.body.toList, i.opcode = .load → ∀ pointer, i.operandRef? 0 = some pointer →
    (b.definition? pointer).isSome
  computations : ∀ i ∈ b.body.toList, i.opcode.isPure = true → i.Picks (b.Sided V .within) ∨
    ∃ side, ∀ w ∈ i.idWords, b.Clear V side ⟨w⟩
  stores : ∀ i ∈ b.body.toList, i.opcode = .store → ∀ w, i.operands[1]? = some w →
    b.Clear V .without ⟨w⟩

/-- Definitions and code stay, and ids stay on their side. -/
structure Parts (V : Ref → Prop) (b b' : Builder) : Prop where
  table : TableLe b b'
  code : b.body.toList <+: b'.body.toList
  sided : ∀ side id, b.Sided V side id → b'.Sided V side id
  clear : ∀ side id, b.Clear V side id → b'.Clear V side id

/-- The same without new samples. -/
structure Calms (V : Ref → Prop) (b b' : Builder) : Prop extends Parts V b b' where
  samples : samplesOf b'.body.toList = samplesOf b.body.toList

theorem Parts.refl (b : Builder) : Parts V b b :=
  ⟨TableLe.refl b, List.prefix_rfl, fun _ _ h => h, fun _ _ h => h⟩

theorem Parts.trans (h : Parts V b b') (h' : Parts V b' b'') : Parts V b b'' :=
  ⟨h.table.trans h'.table, h.code.trans h'.code,
    fun side id hid => h'.sided side id (h.sided side id hid),
    fun side id hid => h'.clear side id (h.clear side id hid)⟩

theorem Calms.refl (b : Builder) : Calms V b b :=
  ⟨Parts.refl b, rfl⟩

theorem Calms.trans (h : Calms V b b') (h' : Calms V b' b'') : Calms V b b'' :=
  ⟨h.toParts.trans h'.toParts, h'.samples.trans h.samples⟩

/-- Actions that keep a module parted. -/
def parting (V : Ref → Prop) : Discipline Builder where
  keeps := Parted V
  leads := Parts V
  faults _ := True
  refl := Parts.refl
  trans := Parts.trans

/-- Actions that keep a module parted and emit no sample. -/
def calm (V : Ref → Prop) : Discipline Builder where
  keeps := Parted V
  leads := Calms V
  faults _ := True
  refl := Calms.refl
  trans := Calms.trans

theorem parting_of_calm {α : Type} {a : Build α} {Q : α → Builder → Prop}
    (h : (calm V).Ensures a b Q) : (parting V).Ensures a b fun v b' =>
      samplesOf b'.body.toList = samplesOf b.body.toList ∧ Q v b' :=
  (h.imp fun _ _ hl hQ => ⟨hl.samples, hQ⟩).weaken (fun h => h)
    (fun _ _ h1 h2 _ => ⟨h1, h2.toParts⟩) fun _ hf => hf

/-! ## Declarations -/

/-- Nothing reaches what is no result of code. -/
theorem Parted.settled_of_not_value (h : b.Parted V) (hid : ∀ t, b.definition? id ≠ some (.value t))
    (side : Side) : side.Settled V b.body.toList id := by
  have hnone {i : Inst} (hi : i ∈ b.body.toList) (hyields : i.opcode.yields = true)
      (hr : i.result = some id) : False := by
    obtain ⟨t, ht⟩ := h.values i hi hyields id hr
    exact hid t ht
  refine ⟨fun hreached => ?_, fun ⟨i, hi, hloads, hr⟩ => hnone hi (by rw [hloads.1]; rfl) hr⟩
  obtain ⟨i, hi, hr, hsrc⟩ := exists_of_reached hreached
  exact hnone hi (hsrc.elim (·.yields.1) Opcode.yields_of_isPure) hr

theorem Parted.definition?_next_eq_none (h : b.Parted V) :
    b.definition? ⟨.ofNat b.definitions.size⟩ = none :=
  Option.eq_none_iff_forall_ne_some.2
    (Environment.next_not_defined (UInt32.toNat_ofNat_of_lt' h.size_lt))

/-- What is no result of code and none of the variables is on both sides. -/
theorem Parted.clear_of_definition (h : b.Parted V) {d : Definition} (hd : b.definition? id = some d)
    (hvalue : ∀ t, d ≠ .value t) (hvar : ∀ t, d ≠ .var t .priv) (side : Side) : b.Clear V side id := by
  have hsettled : side.Settled V b.body.toList id := h.settled_of_not_value (fun t ht => by
    rw [hd] at ht
    exact hvalue t (Option.some.inj ht)) side
  refine ⟨⟨by rw [hd]; rfl, fun hV => ?_, hsettled.clear⟩, hsettled.derived⟩
  obtain ⟨t, ht⟩ := h.vars id hV
  rw [hd] at ht
  exact hvar t (Option.some.inj ht)

section Widening

variable {V' : Ref → Prop}

/-- Loads are from the same variables if ids that were not defined before become variables of the
set. -/
theorem Parted.loadsFrom_iff (h : b.Parted V) {P P' : Ref → Prop}
    (hP : ∀ id, (b.definition? id).isSome → (P' id ↔ P id)) {i : Inst} (hi : i ∈ b.body.toList) :
    i.LoadsFrom P' ↔ i.LoadsFrom P :=
  and_congr_right fun hop => exists_congr fun pointer => and_congr_right fun hp =>
    hP pointer (h.loads i hi hop pointer hp)

/-- Ids stay on their side if the body is left alone, also if ids that were not defined before become
variables of the set. -/
theorem Parted.sided_of_body (h : b.Parted V) (hle : TableLe b b') (hbody : b'.body = b.body)
    (hV : ∀ id, (b.definition? id).isSome → (V' id ↔ V id)) (hid : b.Sided V side id) :
    b'.Sided V' side id := by
  refine ⟨hle.isSome hid.defined, fun hid' => hid.other ((hV id hid.defined).1 hid'), ?_⟩
  rw [hbody]
  intro hreached
  refine hid.clear ((reached_congr fun i hi => ?_).1 hreached)
  cases side with
  | without => exact h.loadsFrom_iff hV hi
  | within => exact or_congr_left (h.loadsFrom_iff (fun id hid => not_congr (hV id hid)) hi)

theorem Parted.clear_of_body (h : b.Parted V) (hle : TableLe b b') (hbody : b'.body = b.body)
    (hV : ∀ id, (b.definition? id).isSome → (V' id ↔ V id)) (hid : b.Clear V side id) :
    b'.Clear V' side id := by
  refine ⟨h.sided_of_body hle hbody hV hid.toSided, ?_⟩
  rw [hbody]
  rintro ⟨i, hi, hloads, hr⟩
  exact hid.derived ⟨i, hi, (h.loadsFrom_iff hV hi).1 hloads, hr⟩

/-- Additions that leave the body alone. -/
theorem Parted.of_body (h : b.Parted V) (hle : TableLe b b') (hbody : b'.body = b.body)
    (hV : ∀ id, (b.definition? id).isSome → (V' id ↔ V id))
    (hsize : b'.definitions.size < UInt32.size)
    (hvars : ∀ id, V' id → ∃ t, b'.definition? id = some (.var t .priv))
    (himported : ∀ id, b'.extSet = some id → b'.definition? id = some .plain) : b'.Parted V' := by
  have hclear {side : Side} {id : Ref} (hid : b.Clear V side id) : b'.Clear V' side id :=
    h.clear_of_body hle hbody hV hid
  refine ⟨hsize, hvars, himported, ?_, ?_, ?_, ?_⟩
  all_goals rw [hbody]
  · intro i hi hyields id hr
    obtain ⟨t, ht⟩ := h.values i hi hyields id hr
    exact ⟨t, hle.definition ht⟩
  · intro i hi hop pointer hp
    exact hle.isSome (h.loads i hi hop pointer hp)
  · intro i hi hop
    refine (h.computations i hi hop).imp (fun hpicks => ?_) fun ⟨side, hside⟩ =>
      ⟨side, fun w hw => hclear (hside w hw)⟩
    exact hpicks.imp fun _ hid => h.sided_of_body hle hbody hV hid
  · intro i hi hop w hw
    exact hclear (h.stores i hi hop w hw)

end Widening

/-- Additions that leave the body and the variables alone. -/
theorem Parted.grow (h : b.Parted V) (hle : TableLe b b') (hbody : b'.body = b.body)
    (hsize : b'.definitions.size < UInt32.size)
    (himported : ∀ id, b'.extSet = some id → b'.definition? id = some .plain) :
    b'.Parted V ∧ Calms V b b' := by
  have hV (id : Ref) (_ : (b.definition? id).isSome) : V id ↔ V id := Iff.rfl
  refine ⟨h.of_body hle hbody hV hsize (fun id hid => ?_) himported,
    ⟨hle, hbody ▸ List.prefix_rfl, fun _ _ hid => h.sided_of_body hle hbody hV hid,
      fun _ _ hid => h.clear_of_body hle hbody hV hid⟩, by rw [hbody]⟩
  obtain ⟨t, ht⟩ := h.vars id hid
  exact ⟨t, hle.definition ht⟩

/-- A definition that is no result of code. -/
theorem fresh_calm {d : Definition} : (calm V).Ensures (fresh d) b fun id b' =>
    b'.body = b.body ∧ b.definition? id = none ∧ b'.definition? id = some d := by
  by_cases hsize : b.definitions.size + 1 < UInt32.size
  · refine Ensures.of_ok (if_pos hsize) fun h => ?_
    have hpush : ({ b with definitions := b.definitions.push d } : Builder).definitions =
      b.definitions.push d := rfl
    have hle := tableLe_push d hpush
    obtain ⟨hparted, hcalms⟩ := h.grow hle rfl (by rw [hpush, Array.size_push]; exact hsize)
      fun id hid => hle.definition (h.imported id hid)
    exact ⟨hparted, hcalms, rfl, h.definition?_next_eq_none, definition?_next hpush h.size_lt⟩
  · exact Ensures.of_error (if_neg hsize) trivial

/-- Types, constants and the like. -/
theorem intern_calm {d : Definition} (hvalue : ∀ t, d ≠ .value t) (hvar : ∀ t, d ≠ .var t .priv) :
    (calm V).Ensures (intern d) b fun id b' => b'.body = b.body ∧ ∀ side, b'.Clear V side id := by
  have hclear {b : Builder} (h : b.Parted V) {id : Ref} (hd : b.definition? id = some d)
      (side : Side) : b.Clear V side id :=
    h.clear_of_definition hd hvalue hvar side
  refine Ensures.assume fun h => Ensures.get_bind ?_
  cases hi : b.definitions.idxOf? d with
  | none => exact fresh_calm.imp_of_keeps fun _ _ hk _ h => ⟨h.1, hclear hk h.2.2⟩
  | some i => exact Ensures.pure _ ⟨rfl, hclear h (definition?_of_idxOf? h.size_lt hi)⟩

theorem importExtSet_calm : (calm V).Ensures importExtSet b fun id b' => ∀ side, b'.Clear V side id := by
  refine Ensures.assume fun h => Ensures.get_bind ?_
  cases hset : b.extSet with
  | some id => exact Ensures.pure _ (h.clear_of_definition (h.imported id hset) (by simp) (by simp))
  | none =>
    refine fresh_calm.bind fun id b₁ _ ⟨_, _, hid⟩ => ?_
    have hle : TableLe b₁ { b₁ with extSet := some id } := TableLe.refl b₁
    refine Ensures.of_ok (v := id) (t := { b₁ with extSet := some id }) rfl fun h₁ => ?_
    have h₂ := h₁.grow hle rfl h₁.size_lt fun id' hid' => by
      obtain rfl := Option.some.inj hid'
      exact hid
    exact ⟨h₂.1, h₂.2, h₂.1.clear_of_definition hid (by simp) (by simp)⟩

theorem type_calm {decl : TypeDecl} : (calm V).Ensures (type decl) b fun _ b' => b'.body = b.body :=
  (intern_calm (d := .type decl) (by simp) (by simp)).imp fun _ _ _ h => h.1

theorem vectorType_calm {c : Ref} {n : UInt32} :
    (calm V).Ensures (vectorType c n) b fun _ b' => b'.body = b.body := by
  unfold vectorType
  split
  · exact Ensures.pure _ rfl
  · exact type_calm

theorem floatVectorType_calm {n : UInt32} :
    (calm V).Ensures (floatVectorType n) b fun _ b' => b'.body = b.body :=
  type_calm.bind fun _ _ _ h => vectorType_calm.imp fun _ _ _ h' => h'.trans h

theorem constant_calm {decl : TypeDecl} {bits : UInt32} :
    (calm V).Ensures (do intern (.constant (← type decl) bits)) b fun id b' =>
      ∀ side, b'.Clear V side id :=
  type_calm.bind fun t _ _ _ =>
    (intern_calm (d := .constant t bits) (by simp) (by simp)).imp fun _ _ _ h => h.2

theorem floatConstant_calm {bits : UInt32} :
    (calm V).Ensures (floatConstant bits) b fun id b' => ∀ side, b'.Clear V side id :=
  constant_calm

theorem uintConstant_calm {bits : UInt32} :
    (calm V).Ensures (uintConstant bits) b fun id b' => ∀ side, b'.Clear V side id :=
  constant_calm

theorem intConstant_calm {bits : UInt32} :
    (calm V).Ensures (intConstant bits) b fun id b' => ∀ side, b'.Clear V side id :=
  constant_calm

/-- A variable is new. -/
theorem variableOf_calm {storage : Storage} {t : Ref} :
    (calm V).Ensures (variableOf storage t) b fun id b' => b'.body = b.body ∧
      b.definition? id = none ∧ ∃ t, b'.definition? id = some (.var t storage) := by
  refine type_calm.bind fun pointer b₁ l₁ hbody => fresh_calm.imp fun id b₂ _ h => ?_
  refine ⟨h.1.trans hbody, Option.eq_none_iff_forall_ne_some.2 fun d hd => ?_, pointer, h.2.2⟩
  rw [l₁.table.definition hd] at h
  cases h.2.1

theorem decorate_calm {target : Ref} {kind value : UInt32} :
    (calm V).Ensures (Build.decorate target kind value) b fun _ _ => True := by
  refine Ensures.of_ok (v := ()) (t := b.decorate ⟨target, kind, value⟩) rfl fun h => ?_
  have hle : TableLe b (b.decorate ⟨target, kind, value⟩) := TableLe.refl b
  obtain ⟨hparted, hcalms⟩ := h.grow hle rfl h.size_lt h.imported
  exact ⟨hparted, hcalms, trivial⟩

/-! ## Instructions -/

/-- An instruction with a result that is none of the ids so far. -/
theorem Parts.of_append {i : Inst} (hle : TableLe b b')
    (hbody : b'.body.toList = b.body.toList ++ [i])
    (hnew : ∀ id, i.result = some id → b.definition? id = none) : Parts V b b' := by
  have hold {side : Side} {id : Ref} (h : b.Sided V side id) : i.result ≠ some id := fun hr => by
    have hdefined := h.defined
    rw [hnew id hr] at hdefined
    cases hdefined
  have hsided {side : Side} {id : Ref} (h : b.Sided V side id) : b'.Sided V side id := by
    refine ⟨hle.isSome h.defined, h.other, fun hreached => ?_⟩
    rw [hbody] at hreached
    rcases reached_concat.1 hreached with hreached | ⟨hr, -⟩
    · exact h.clear hreached
    · exact hold h hr
  refine ⟨hle, ⟨[i], hbody.symm⟩, fun _ _ => hsided, fun side id h => ⟨hsided h.toSided, ?_⟩⟩
  rw [hbody]
  rintro ⟨j, hj, hloads, hr⟩
  rcases List.mem_append.1 hj with hj | hj
  · exact h.derived ⟨j, hj, hloads, hr⟩
  · obtain rfl := List.mem_singleton.1 hj
    exact hold h.toSided hr

/-- One more instruction. -/
theorem Parted.of_append (h : b.Parted V) {i : Inst} (hparts : Parts V b b')
    (hbody : b'.body.toList = b.body.toList ++ [i]) (hsize : b'.definitions.size < UInt32.size)
    (hset : b'.extSet = b.extSet)
    (hvalue : i.opcode.yields = true → ∀ id, i.result = some id →
      ∃ t, b'.definition? id = some (.value t))
    (hload : i.opcode = .load → ∀ pointer, i.operandRef? 0 = some pointer →
      (b.definition? pointer).isSome)
    (hpure : i.opcode.isPure = true → i.Picks (b.Sided V .within) ∨
      ∃ side, ∀ w ∈ i.idWords, b.Clear V side ⟨w⟩)
    (hstore : i.opcode = .store → ∀ w, i.operands[1]? = some w → b.Clear V .without ⟨w⟩) :
    b'.Parted V := by
  have hle := hparts.table
  have hmem {j : Inst} (hj : j ∈ b'.body.toList) : j ∈ b.body.toList ∨ j = i := by
    rw [hbody] at hj
    simpa using hj
  refine ⟨hsize, fun id hV => ?_, fun id hid => ?_, fun j hj hop id hr => ?_,
    fun j hj hop pointer hp => ?_, fun j hj hop => ?_, fun j hj hop w hw => ?_⟩
  · obtain ⟨t, ht⟩ := h.vars id hV
    exact ⟨t, hle.definition ht⟩
  · exact hle.definition (h.imported id (hset ▸ hid))
  · rcases hmem hj with hj | rfl
    · obtain ⟨t, ht⟩ := h.values j hj hop id hr
      exact ⟨t, hle.definition ht⟩
    · exact hvalue hop id hr
  · rcases hmem hj with hj | rfl
    · exact hle.isSome (h.loads j hj hop pointer hp)
    · exact hle.isSome (hload hop pointer hp)
  · have hcomputes : j.Picks (b.Sided V .within) ∨ ∃ side, ∀ w ∈ j.idWords, b.Clear V side ⟨w⟩ := by
      rcases hmem hj with hj | rfl
      · exact h.computations j hj hop
      · exact hpure hop
    exact hcomputes.imp (·.imp (hparts.sided _)) fun ⟨side, hside⟩ =>
      ⟨side, fun w hw => hparts.clear side _ (hside w hw)⟩
  · rcases hmem hj with hj | rfl
    · exact hparts.clear _ _ (h.stores j hj hop w hw)
    · exact hparts.clear _ _ (hstore hop w hw)

/-- An instruction with a result. The result is on each side that it does not breach and its operands
are on, and derived unless it is loaded from the variables. -/
theorem Parted.emit (h : b.Parted V) {t : Ref} {i : Inst}
    (hsize : b.definitions.size + 1 < UInt32.size)
    (hresult : i.result = some ⟨.ofNat b.definitions.size⟩) (hop : i.opcode.yields = true)
    (hload : i.opcode = .load → ∀ pointer, i.operandRef? 0 = some pointer →
      (b.definition? pointer).isSome)
    (hpure : i.opcode.isPure = true → i.Picks (b.Sided V .within) ∨
      ∃ side, ∀ w ∈ i.idWords, b.Clear V side ⟨w⟩)
    (hb' : b' = ({ b with definitions := b.definitions.push (.value t) } : Builder).append i) :
    b'.Parted V ∧ Parts V b b' ∧ b'.body.toList = b.body.toList ++ [i] ∧
      (∀ side : Side, ¬ side.Breach V i →
        (i.opcode.isPure = true → ∀ w ∈ i.idWords, b.Sided V side ⟨w⟩) →
        b'.Sided V side ⟨.ofNat b.definitions.size⟩) ∧
      (¬ i.LoadsFrom V → ¬ LoadedFrom V b'.body.toList ⟨.ofNat b.definitions.size⟩) := by
  have hpush : b'.definitions = b.definitions.push (.value t) := by rw [hb']; rfl
  have hbody : b'.body.toList = b.body.toList ++ [i] := by
    rw [hb']
    exact Array.toList_push
  have hdefinition := definition?_next hpush h.size_lt
  have hnone := h.definition?_next_eq_none
  have hnew {id : Ref} (hid : i.result = some id) : ⟨.ofNat b.definitions.size⟩ = id :=
    Option.some.inj (hresult.symm.trans hid)
  have hsettled (side : Side) : side.Settled V b.body.toList ⟨.ofNat b.definitions.size⟩ :=
    h.settled_of_not_value (by simp [hnone]) side
  have hparts : Parts V b b' :=
    .of_append (tableLe_push _ hpush) hbody fun id hid => hnew hid ▸ hnone
  refine ⟨h.of_append hparts hbody ?_ (by rw [hb']; rfl) ?_ hload hpure ?_, hparts, hbody, ?_, ?_⟩
  · rw [hpush, Array.size_push]
    exact hsize
  · exact fun _ id hid => ⟨t, hnew hid ▸ hdefinition⟩
  · intro hstore
    rw [hstore] at hop
    cases hop
  · intro side hbreach hside
    refine ⟨by rw [hdefinition]; rfl, fun hV => ?_, fun hreached => ?_⟩
    · obtain ⟨t', ht'⟩ := h.vars _ hV
      rw [hnone] at ht'
      cases ht'
    · rw [hbody] at hreached
      rcases reached_concat.1 hreached with hreached | ⟨-, hsrc | ⟨hpure, w, hw, hreached⟩⟩
      · exact (hsettled side).clear hreached
      · exact hbreach hsrc
      · exact (hside hpure w hw).clear hreached
  · rintro hloads ⟨j, hj, hloadsj, hr⟩
    rw [hbody] at hj
    rcases List.mem_append.1 hj with hj | hj
    · exact (hsettled .within).derived ⟨j, hj, hloadsj, hr⟩
    · obtain rfl := List.mem_singleton.1 hj
      exact hloads hloadsj

theorem emit_parts {op : Opcode} {t : Ref} {ops : List UInt32} (hop : op.yields = true)
    (hload : op = .load → ∀ w, ops[0]? = some w → (b.definition? ⟨w⟩).isSome)
    (hpure : op.isPure = true → (Inst.mk op (some t) none ops).Picks (b.Sided V .within) ∨
      ∃ side, ∀ w ∈ (Inst.mk op (some t) none ops).idWords, b.Clear V side ⟨w⟩) :
    (parting V).Ensures (emit op t ops) b fun id b' =>
      b'.body.toList = b.body.toList ++ [Inst.mk op (some t) (some id) ops] ∧
      (∀ side : Side, ¬ side.Breach V (Inst.mk op (some t) none ops) →
        (op.isPure = true → ∀ w ∈ (Inst.mk op (some t) none ops).idWords, b.Sided V side ⟨w⟩) →
        b'.Sided V side id) ∧
      (op ≠ .load → ¬ LoadedFrom V b'.body.toList id) := by
  by_cases hsize : b.definitions.size + 1 < UInt32.size
  · refine Ensures.of_ok (Environment.emit_of_lt op t ops hsize) fun h => ?_
    have hload' (hop' : op = .load) (pointer : Ref) (hp : (ops[0]?).map Ref.mk = some pointer) :
        (b.definition? pointer).isSome := by
      obtain ⟨w, hw, rfl⟩ := Option.map_eq_some_iff.1 hp
      exact hload hop' w hw
    obtain ⟨hparted, hparts, hbody, hsided, hderived⟩ := h.emit (t := t)
      (i := ⟨op, some t, some ⟨.ofNat b.definitions.size⟩, ops⟩) hsize rfl hop hload' hpure rfl
    refine ⟨hparted, hparts, hbody, fun side hbreach => hsided side fun hbreach' => hbreach ?_,
      fun hne => hderived fun hloads => hne hloads.1⟩
    cases side <;> exact hbreach'
  · exact Ensures.of_error (Environment.emit_of_not_lt op t ops hsize) trivial

theorem calm_of_parting {α : Type} {a : Build α} {Q : α → Builder → Prop}
    (h : (parting V).Ensures a b fun v b' =>
      samplesOf b'.body.toList = samplesOf b.body.toList ∧ Q v b') : (calm V).Ensures a b Q := by
  have hcalm : (calm V).Ensures a b fun v b' =>
      samplesOf b'.body.toList = samplesOf b.body.toList ∧ Q v b' :=
    h.weaken (fun h => h) (fun _ _ h1 h2 h3 => ⟨h1, h2, h3.1⟩) fun _ hf => hf
  exact hcalm.imp fun _ _ _ h => h.2

/-- Computations are on the side of their operands. -/
theorem compute_calm {op : Opcode} {t : Ref} {ops : List UInt32} (hop : op.isPure = true)
    (hsided : ∀ w ∈ (Inst.mk op (some t) none ops).idWords, b.Sided V side ⟨w⟩)
    (hpure : (Inst.mk op (some t) none ops).Picks (b.Sided V .within) ∨
      ∃ side, ∀ w ∈ (Inst.mk op (some t) none ops).idWords, b.Clear V side ⟨w⟩) :
    (calm V).Ensures (emit op t ops) b fun id b' => b'.Clear V side id := by
  have hload : op ≠ .load := by
    rintro rfl
    cases hop
  have hsample (id : Ref) : samplesOf [Inst.mk op (some t) (some id) ops] = [] := by
    refine List.filter_cons_of_neg ?_
    cases op <;> first | exact Bool.false_ne_true | cases hop
  refine calm_of_parting ((emit_parts (Opcode.yields_of_isPure hop) (fun h => absurd h hload)
    fun _ => hpure).imp fun id b' _ ⟨hbody, hside, hderived⟩ =>
      ⟨?_, hside side (fun hbreach => ?_) fun _ => hsided, hderived hload⟩)
  · rw [hbody, samplesOf_append, hsample, List.append_nil]
  · exact Bool.false_ne_true (hbreach.yields.2.symm.trans hop)

theorem pure_calm {op : Opcode} {t : Ref} {ops : List UInt32} (hop : op.isPure = true)
    (hclear : ∀ w ∈ (Inst.mk op (some t) none ops).idWords, b.Clear V side ⟨w⟩) :
    (calm V).Ensures (emit op t ops) b fun id b' => b'.Clear V side id :=
  compute_calm hop (fun w hw => (hclear w hw).toSided) (.inr ⟨side, hclear⟩)

theorem typeOrNone_calm {value : Ref} : (calm V).Ensures (typeOrNone value) b fun _ b' => b' = b :=
  Ensures.get_bind (Ensures.pure _ rfl)

/-- Loads are on the side of their variable. -/
theorem load_calm {pointer : Ref} (hd : (b.definition? pointer).isSome) (ho : side.Owns V pointer) :
    (calm V).Ensures (load pointer) b fun id b' => b'.Sided V side id ∧
      ∃ t, Inst.mk .load (some t) (some id) [pointer.word] ∈ b'.body.toList := by
  unfold load
  refine typeOrNone_calm.bind fun t b₁ _ hb₁ => ?_
  subst hb₁
  refine Ensures.get_bind (calm_of_parting ((emit_parts rfl ?_ (by simp [Opcode.isPure])).imp
    fun id b' _ h => ⟨?_, h.2.1 side (Side.not_breach_of_load rfl rfl ho) (by simp [Opcode.isPure]),
      b₁.containedType t, ?_⟩))
  · rintro - w ⟨⟩
    exact hd
  · rw [h.1, samplesOf_append]
    exact List.append_nil _
  · rw [h.1]
    exact List.mem_append_right _ (List.mem_singleton_self _)

/-- What is stored is on the outside. -/
theorem store_calm {pointer value : Ref} (hclear : b.Clear V .without value) :
    (calm V).Ensures (store pointer value) b fun _ _ => True := by
  refine Ensures.of_ok (v := ()) (t := b.append (Environment.storeInst pointer value)) rfl fun h => ?_
  have hbody : (b.append (Environment.storeInst pointer value)).body.toList =
      b.body.toList ++ [Environment.storeInst pointer value] := Array.toList_push
  have hparts : Parts V b (b.append (Environment.storeInst pointer value)) :=
    .of_append (TableLe.refl b) hbody nofun
  refine ⟨Parted.of_append h hparts hbody h.size_lt rfl nofun nofun nofun ?_, ⟨hparts, ?_⟩, trivial⟩
  · rintro - w ⟨⟩
    exact hclear
  · rw [hbody, samplesOf_append]
    exact List.append_nil _

theorem bitcast_calm {t value : Ref} (h : b.Clear V side value) :
    (calm V).Ensures (bitcast t value) b fun id b' => b'.Clear V side id :=
  pure_calm rfl fun w hw => by
    obtain rfl := List.mem_singleton.1 hw
    exact h

theorem construct_calm {t : Ref} {parts : List Ref} (h : ∀ id ∈ parts, b.Clear V side id) :
    (calm V).Ensures (construct t parts) b fun id b' => b'.Clear V side id :=
  pure_calm rfl fun w hw => by
    obtain ⟨id, hid, rfl⟩ := List.mem_map.1 hw
    exact h id hid

theorem extract_calm {composite : Ref} {index : UInt32} (h : b.Clear V side composite) :
    (calm V).Ensures (extract composite index) b fun id b' => b'.Clear V side id := by
  unfold extract
  refine typeOrNone_calm.bind fun t b₁ _ hb₁ => ?_
  subst hb₁
  refine Ensures.get_bind (pure_calm rfl fun w hw => ?_)
  obtain rfl := List.mem_singleton.1 hw
  exact h

/-- One of the first four lanes of what was loaded. -/
theorem extract_lane {composite : Ref} {index : UInt32} (hlane : index.toNat < 4)
    (h : b.Sided V side composite) :
    (calm V).Ensures (extract composite index) b fun id b' => b'.Clear V side id := by
  cases side with
  | without => exact extract_calm h.clear_without
  | within =>
    unfold extract
    refine typeOrNone_calm.bind fun t b₁ _ hb₁ => ?_
    subst hb₁
    refine Ensures.get_bind (compute_calm rfl (fun w hw => ?_)
      (.inl ⟨rfl, composite.word, index, rfl, hlane, h⟩))
    obtain rfl := List.mem_singleton.1 hw
    exact h

theorem insert_calm {object composite : Ref} {index : UInt32} (ho : b.Clear V side object)
    (hc : b.Clear V side composite) :
    (calm V).Ensures (Build.insert object composite index) b fun id b' => b'.Clear V side id := by
  unfold Build.insert
  refine typeOrNone_calm.bind fun t b₁ _ hb₁ => ?_
  subst hb₁
  refine pure_calm rfl fun w hw => ?_
  rcases List.mem_cons.1 hw with rfl | hw
  · exact ho
  · obtain rfl := List.mem_singleton.1 hw
    exact hc

theorem shuffle_calm {t a a' : Ref} {lanes : List UInt32} (ha : b.Clear V side a)
    (ha' : b.Clear V side a') :
    (calm V).Ensures (shuffle t a a' lanes) b fun id b' => b'.Clear V side id := by
  refine pure_calm rfl fun w hw => ?_
  rcases List.mem_cons.1 hw with rfl | hw
  · exact ha
  · obtain rfl := List.mem_singleton.1 hw
    exact ha'

theorem extInst_calm {t : Ref} {op : ExtOpcode} {args : List Ref} (h : ∀ id ∈ args, b.Clear V side id) :
    (calm V).Ensures (extInst t op args) b fun id b' => b'.Clear V side id := by
  unfold extInst
  refine importExtSet_calm.bind fun set b₁ l₁ hset => pure_calm rfl fun w hw => ?_
  rcases List.mem_cons.1 hw with rfl | hw
  · exact hset side
  · obtain ⟨id, hid, rfl⟩ := List.mem_map.1 hw
    exact l₁.clear side id (h id hid)

theorem clear_words {ids : List Ref} (h : ∀ id ∈ ids, b.Clear V side id) :
    ∀ w ∈ ids.map Ref.word, b.Clear V side ⟨w⟩ := by
  intro w hw
  obtain ⟨id, hid, rfl⟩ := List.mem_map.1 hw
  exact h id hid

/-- Computations of some ids are on the side of these. -/
theorem emit_calm {op : Opcode} {t : Ref} (ids : List Ref) (hop : op.isPure = true)
    (hids : (Inst.mk op (some t) none (ids.map Ref.word)).idWords = ids.map Ref.word)
    (h : ∀ id ∈ ids, b.Clear V side id) :
    (calm V).Ensures (emit op t (ids.map Ref.word)) b fun id b' => b'.Clear V side id :=
  pure_calm hop fun w hw => clear_words h w (hids ▸ hw)

/-! ## Lanes -/

open Lowering

theorem unpackField_calm {raw : Ref} {e : Encoding} {lane : UInt32} (h : b.Clear V side raw) :
    (calm V).Ensures (unpackField raw e lane) b fun id b' => b'.Clear V side id := by
  unfold unpackField
  refine type_calm.bind fun float b₁ l₁ _ => ?_
  refine (Ensures.lift (Q := fun _ _ => True) (fun _ _ => trivial) fun _ _ => trivial).bind
    fun start b₂ l₂ _ => ?_
  refine uintConstant_calm.bind fun offset b₃ l₃ hoffset => ?_
  refine uintConstant_calm.bind fun count b₄ l₄ hcount => ?_
  have hraw : b₄.Clear V side raw := (((l₁.trans l₂).trans l₃).trans l₄).clear side raw h
  have hoffset := l₄.clear side offset (hoffset side)
  split
  · refine type_calm.bind fun int b₅ l₅ _ => ?_
    refine (bitcast_calm (l₅.clear side raw hraw)).bind fun bits b₆ l₆ hbits => ?_
    refine (emit_calm [bits, offset, count] rfl rfl ?_).bind fun field b₇ _ hfield =>
      emit_calm [field] rfl rfl (by simpa using hfield)
    have l := l₅.trans l₆
    simpa using ⟨hbits, l.clear side offset hoffset, l.clear side count (hcount side)⟩
  · refine type_calm.bind fun uint b₅ l₅ _ => ?_
    refine (bitcast_calm (l₅.clear side raw hraw)).bind fun bits b₆ l₆ hbits => ?_
    refine (emit_calm [bits, offset, count] rfl rfl ?_).bind fun field b₇ _ hfield =>
      emit_calm [field] rfl rfl (by simpa using hfield)
    have l := l₅.trans l₆
    simpa using ⟨hbits, l.clear side offset hoffset, l.clear side count (hcount side)⟩

theorem unpackHalves_calm {raw : Ref} (h : b.Clear V side raw) :
    (calm V).Ensures (unpackHalves raw) b fun id b' => b'.Clear V side id := by
  unfold unpackHalves
  refine type_calm.bind fun float b₁ l₁ _ => type_calm.bind fun uint b₂ l₂ _ =>
    vectorType_calm.bind fun pair b₃ l₃ _ => ?_
  refine (bitcast_calm (((l₁.trans l₂).trans l₃).clear side raw h)).bind fun bits b₄ _ hbits => ?_
  exact extInst_calm (by simpa using hbits)

/-- Unpacked lanes are on the side of the component. -/
theorem unpackLane_calm {raw : Ref} {e : Encoding} {lane : UInt32} (h : b.Clear V side raw) :
    (calm V).Ensures (unpackLane raw e lane) b fun id b' => b'.Clear V side id := by
  unfold unpackLane
  refine type_calm.bind fun float b₁ l₁ _ => ?_
  have hraw := l₁.clear side raw h
  cases e with
  | f32 => exact Ensures.pure _ hraw
  | f16 => exact (unpackHalves_calm hraw).bind fun _ _ _ hhalves => extract_calm hhalves
  | u32 | s32 =>
    refine type_calm.bind fun int b₂ l₂ _ => ?_
    exact (bitcast_calm (l₂.clear side raw hraw)).bind fun bits _ _ hbits =>
      emit_calm [bits] rfl rfl (by simpa using hbits)
  | c10 =>
    refine (unpackField_calm hraw).bind fun converted b₂ _ hconverted => ?_
    refine floatConstant_calm.bind fun step b₃ l₃ hstep => emit_calm [converted, step] rfl rfl ?_
    simpa using ⟨l₃.clear side converted hconverted, hstep side⟩
  | u8 | s8 | u16 | s16 => exact unpackField_calm hraw

theorem unpackAll_calm {raw : Ref} {e : Encoding} (h : b.Clear V side raw) :
    (calm V).Ensures (unpackAll raw e) b fun id b' => b'.Clear V side id := by
  unfold unpackAll
  split
  · exact Ensures.pure _ h
  · exact unpackHalves_calm h
  · refine type_calm.bind fun float b₁ l₁ _ => ?_
    refine (Ensures.mapM (D := calm V) (R := fun _ id b => b.Clear V side id) _
      (fun _ id _ _ l h => l.clear side id h) fun _ _ b₂ l₂ =>
        unpackLane_calm ((l₁.trans l₂).clear side raw h)).bind fun lanes b₂ _ hlanes => ?_
    have hclear := forall_of_forall₂ hlanes
    split
    · exact Ensures.pure _ (hclear _ (List.mem_singleton_self _))
    · exact vectorType_calm.bind fun _ b₃ l₃ _ => construct_calm fun id hid =>
        l₃.clear side id (hclear id hid)

/-! ## Conversions -/

theorem splat_calm {bits count : UInt32} (side : Side) :
    (calm V).Ensures (splat bits count) b fun id b' => b'.Clear V side id := by
  unfold splat
  refine floatConstant_calm.bind fun constant b₁ _ hconstant => ?_
  split
  · exact Ensures.pure _ (hconstant side)
  · refine floatVectorType_calm.bind fun t b₂ l₂ _ => construct_calm fun id hid => ?_
    rw [List.eq_of_mem_replicate hid]
    exact l₂.clear side constant (hconstant side)

theorem saturate_calm {value : Ref} {lo hi : UInt32} {signed : Bool} (h : b.Clear V side value) :
    (calm V).Ensures (saturate value lo hi signed) b fun id b' => b'.Clear V side id := by
  unfold saturate
  refine Ensures.get_bind (floatVectorType_calm.bind fun float b₁ l₁ _ => ?_)
  refine (extInst_calm (by simpa using l₁.clear side value h)).bind fun rounded b₂ _ hrounded => ?_
  refine (splat_calm side).bind fun lower b₃ l₃ hlower => ?_
  refine (splat_calm side).bind fun upper b₄ l₄ hupper => ?_
  have hargs : ∀ id ∈ [rounded, lower, upper], b₄.Clear V side id := by
    simpa using ⟨(l₃.trans l₄).clear side rounded hrounded, l₄.clear side lower hlower, hupper⟩
  refine (extInst_calm hargs).bind fun clamped b₅ _ hclamped => ?_
  split
  all_goals
    refine type_calm.bind fun _ _ l₆ _ => vectorType_calm.bind fun _ _ l₇ _ => ?_
    exact emit_calm [clamped] rfl rfl (by simpa using (l₆.trans l₇).clear side clamped hclamped)

theorem saturateTo_calm {value : Ref} {e : Encoding} (h : b.Clear V side value) :
    (calm V).Ensures (saturateTo value e) b fun id b' => b'.Clear V side id := by
  unfold saturateTo
  split
  · exact saturate_calm h
  · exact fun _ => trivial

theorem saturateFixed_calm {value : Ref} (h : b.Clear V side value) :
    (calm V).Ensures (saturateFixed value) b fun id b' => b'.Clear V side id := by
  unfold saturateFixed
  refine Ensures.get_bind (floatVectorType_calm.bind fun float b₁ l₁ _ => ?_)
  refine (splat_calm side).bind fun scale b₂ l₂ hscale => ?_
  refine (emit_calm [value, scale] rfl rfl ?_).bind fun scaled _ _ hscaled => saturate_calm hscaled
  simpa using ⟨(l₁.trans l₂).clear side value h, hscale⟩

theorem encodeValue_calm {e : Encoding} {value : Ref} (h : b.Clear V side value) :
    (calm V).Ensures (Emit.encodeValue e value) b fun id b' => b'.Clear V side id := by
  unfold Emit.encodeValue
  refine Ensures.get_bind ?_
  split
  · exact saturateTo_calm h
  · split
    · exact saturateFixed_calm h
    · exact Ensures.pure _ h

theorem pickLane_calm {encoded : Ref} {count lane : UInt32} (h : b.Clear V side encoded) :
    (calm V).Ensures (Emit.pickLane encoded count lane) b fun id b' => b'.Clear V side id := by
  unfold Emit.pickLane
  split
  · exact extract_calm h
  · exact Ensures.pure _ h

theorem laneBits_calm {e : Encoding} {value : Ref} (h : b.Clear V side value) :
    (calm V).Ensures (Emit.laneBits e value) b fun id b' => b'.Clear V side id := by
  unfold Emit.laneBits
  refine type_calm.bind fun uint b₁ l₁ _ => ?_
  have hvalue := l₁.clear side value h
  split
  · refine floatConstant_calm.bind fun zero b₂ l₂ hzero => floatVectorType_calm.bind fun _ b₃ l₃ _ => ?_
    have hparts : ∀ id ∈ [value, zero], b₃.Clear V side id := by
      simpa using ⟨(l₂.trans l₃).clear side value hvalue, l₃.clear side zero (hzero side)⟩
    exact (construct_calm hparts).bind fun pair _ _ hpair => extInst_calm (by simpa using hpair)
  · exact bitcast_calm hvalue

theorem mergeLane_calm {e : Encoding} {raw bits : Ref} {lane : UInt32} (hraw : b.Clear V side raw)
    (hbits : b.Clear V side bits) :
    (calm V).Ensures (Emit.mergeLane e raw bits lane) b fun id b' => b'.Clear V side id := by
  unfold Emit.mergeLane
  refine type_calm.bind fun uint b₁ l₁ _ => ?_
  refine (bitcast_calm (l₁.clear side raw hraw)).bind fun old b₂ l₂ hold => ?_
  refine (Ensures.lift (Q := fun _ _ => True) (fun _ _ => trivial) fun _ _ => trivial).bind
    fun start b₃ l₃ _ => ?_
  refine uintConstant_calm.bind fun offset b₄ l₄ hoffset => ?_
  refine uintConstant_calm.bind fun count b₅ l₅ hcount => ?_
  have l := (l₃.trans l₄).trans l₅
  have hids : ∀ id ∈ [old, bits, offset, count], b₅.Clear V side id := by
    simpa using ⟨l.clear side old hold, ((l₁.trans l₂).trans l).clear side bits hbits,
      l₅.clear side offset (hoffset side), hcount side⟩
  exact (emit_calm [old, bits, offset, count] rfl rfl hids).bind fun merged b₆ _ hmerged =>
    type_calm.bind fun _ _ l₇ _ => bitcast_calm (l₇.clear side merged hmerged)

/-! ## Requests -/

theorem dereference_calm {value : Ref} (h : b.Clear V .without value) :
    (calm V).Ensures (dereference value) b fun id b' => b'.Clear V .without id := by
  unfold dereference
  refine Ensures.get_bind ?_
  split
  · have ho : Side.without.Owns V value := h.other
    exact (load_calm h.defined ho).imp fun _ _ _ ⟨hid, _⟩ => hid.clear_without
  · exact Ensures.pure _ h

theorem unpackCoord_calm {value : Ref} {e : Encoding} (h : b.Clear V .without value) :
    (calm V).Ensures (unpackCoord value e) b fun id b' => b'.Clear V .without id := by
  have hlanes {raw : Ref} {b₂ : Builder} (hraw : b₂.Clear V .without raw) : (calm V).Ensures (do
      let lanes ← unpackAll raw e
      if 2 < (← get).components lanes then shuffle (← floatVectorType 2) lanes lanes [0, 1]
      else return lanes) b₂ fun id b' => b'.Clear V .without id := by
    refine (unpackAll_calm hraw).bind fun lanes b₃ _ hlanes => Ensures.get_bind ?_
    split
    · exact floatVectorType_calm.bind fun _ _ l₄ _ =>
        shuffle_calm (l₄.clear _ lanes hlanes) (l₄.clear _ lanes hlanes)
    · exact Ensures.pure _ hlanes
  unfold unpackCoord
  refine (dereference_calm h).bind fun value b₁ _ hvalue => Ensures.get_bind ?_
  dsimp only
  split
  · refine type_calm.bind fun float b₂ l₂ _ => intConstant_calm.bind fun zero b₃ l₃ hzero => ?_
    have hids : ∀ id ∈ [value, zero], b₃.Clear V .without id := by
      simpa using ⟨(l₂.trans l₃).clear _ value hvalue, hzero _⟩
    exact (emit_calm [value, zero] rfl rfl hids).bind fun _ _ _ hraw => hlanes hraw
  · exact hlanes hvalue

theorem normalizeCoord_calm {coord : Coord} (h : b.Clear V .without coord.value) :
    (calm V).Ensures (normalizeCoord coord) b fun id b' => b'.Clear V .without id := by
  have hfloat {unpacked : Ref} {b₁ : Builder} (hunpacked : b₁.Clear V .without unpacked) :
      (calm V).Ensures (do
        let value ← dereference unpacked
        if (← get).isFloat value then return value else throw (.coordNotFloat value)) b₁
        fun id b' => b'.Clear V .without id := by
    refine (dereference_calm hunpacked).bind fun value b₂ _ hvalue => Ensures.get_bind ?_
    split
    · exact Ensures.pure _ hvalue
    · exact fun _ => trivial
  unfold normalizeCoord
  dsimp only
  split
  · exact hfloat h
  · exact (unpackCoord_calm h).bind fun _ _ _ hunpacked => hfloat hunpacked

theorem coordElement_calm {base : Ref} {count element : UInt32} {e : Encoding}
    (h : b.Clear V side base) :
    (calm V).Ensures (coordElement base count e element) b fun id b' => b'.Clear V side id := by
  unfold coordElement
  dsimp only
  split
  · exact floatConstant_calm.imp fun _ _ _ h => h side
  · split
    · exact (extract_calm h).bind fun _ _ _ hraw => unpackLane_calm hraw
    · exact unpackLane_calm h

theorem projectedCoord_calm {coord : Coord} {divisor : UInt8} (h : b.Clear V .without coord.value) :
    (calm V).Ensures (projectedCoord coord divisor) b fun id b' => b'.Clear V .without id := by
  unfold projectedCoord
  refine (dereference_calm h).bind fun base b₁ _ hbase => ?_
  refine floatVectorType_calm.bind fun vec b₂ l₂ _ => ?_
  have hbase₂ := l₂.clear _ base hbase
  split
  · exact shuffle_calm hbase₂ hbase₂
  · refine Ensures.get_bind ?_
    refine (coordElement_calm hbase₂).bind fun x b₃ l₃ hx => ?_
    refine (coordElement_calm (l₃.clear _ base hbase₂)).bind fun y b₄ l₄ hy => ?_
    refine (coordElement_calm ((l₃.trans l₄).clear _ base hbase₂)).bind fun q b₅ l₅ hq =>
      construct_calm ?_
    simpa using ⟨(l₄.trans l₅).clear _ x hx, l₅.clear _ y hy, hq⟩

/-- Code that makes one request, of the image of a variable. -/
def Requests (V : Ref → Prop) (free : Prop) (texture : Ref) (lod : FetchLod) (b b' : Builder) : Prop :=
  ∃ i, samplesOf b'.body.toList = samplesOf b.body.toList ++ [i] ∧ i.Sampled (b'.Clear V) free ∧
    i.Asks b'.body.toList texture lod

/-- Ids of a level of detail are on the outside, but for the second gradient if it is `free`. -/
def LodClear (b : Builder) (V : Ref → Prop) (free : Prop) : FetchLod → Prop
  | .implicit | .projective => ¬ free
  | .bias level => ¬ free ∧ b.Clear V .without level
  | .gradient dx dy => b.Clear V .without dx ∧ (free → b.Clear V .within dy) ∧
      (¬ free → b.Clear V .without dy)

theorem LodClear.mono {free : Prop} {lod : FetchLod} (h : b.LodClear V free lod)
    (hparts : Parts V b b') : b'.LodClear V free lod := by
  cases lod with
  | implicit => exact h
  | projective => exact h
  | bias level => exact ⟨h.1, hparts.clear _ _ h.2⟩
  | gradient dx dy =>
    exact ⟨hparts.clear _ _ h.1, fun hf => hparts.clear _ _ (h.2.1 hf),
      fun hf => hparts.clear _ _ (h.2.2 hf)⟩

/-- Texels are on the outside. -/
theorem emit_requests {free : Prop} {op : Opcode} {t : Ref} {ops : List UInt32}
    (hop : op.isImageSample = true) (hs : (Inst.mk op (some t) none ops).Sampled (b.Clear V) free) :
    (parting V).Ensures (emit op t ops) b fun id b' => b'.Clear V .without id ∧
      samplesOf b'.body.toList = samplesOf b.body.toList ++ [Inst.mk op (some t) (some id) ops] ∧
      (Inst.mk op (some t) (some id) ops).Sampled (b'.Clear V) free := by
  have hkind : op.yields = true ∧ op ≠ .load ∧ op.isPure = false := by
    cases op <;> first | exact ⟨rfl, by decide, rfl⟩ | cases hop
  have hpure (h : op.isPure = true) : False := Bool.false_ne_true (hkind.2.2.symm.trans h)
  refine (emit_parts hkind.1 (fun h => absurd h hkind.2.1) fun h => (hpure h).elim).imp
    fun id b' l h => ⟨Sided.clear_without (h.2.1 .without (fun hbreach => hkind.2.1 hbreach.1)
      fun h => (hpure h).elim), ?_, ?_⟩
  · rw [h.1, samplesOf_append]
    exact congrArg _ (List.filter_cons_of_pos hop)
  · exact Inst.Sampled.imp ⟨hs.plain, hs.bound, hs.free⟩ l.clear

/-- The operands of a request are an image, a coordinate and what the level of detail adds. -/
theorem sampled_of_operands {clear : Side → Ref → Prop} {free : Prop} {op : Opcode} {t image coord : Ref}
    {rest : List UInt32} (hi : clear .without image) (hc : clear .without coord)
    (hplain : ∀ w, rest[1]? = some w → clear .without ⟨w⟩)
    (hbound : ¬ free → ∀ w, rest[2]? = some w → clear .without ⟨w⟩)
    (hfree : free → op = .imageSampleExplicitLod ∧ rest[0]? = some Machine.gradBit ∧
      ∀ w, rest[2]? = some w → clear .within ⟨w⟩) :
    (Inst.mk op (some t) none (image.word :: coord.word :: rest)).Sampled clear free := by
  refine ⟨fun n hn w hw => ?_, hbound, hfree⟩
  simp only [List.mem_cons, List.not_mem_nil, or_false] at hn
  rcases hn with rfl | rfl | rfl
  · obtain rfl := Option.some.inj hw
    exact hi
  · obtain rfl := Option.some.inj hw
    exact hc
  · exact hplain w hw

theorem sampleImage_requests {free : Prop} {texture coord : Ref} {lod : FetchLod}
    (ht : b.Clear V .without texture) (hc : b.Clear V .without coord) (hlod : b.LodClear V free lod) :
    (parting V).Ensures (sampleImage texture coord lod) b fun id b' =>
      b'.Clear V .without id ∧ Requests V free texture lod b b' := by
  unfold sampleImage
  refine (parting_of_calm floatVectorType_calm).bind fun vec b₁ l₁ ⟨hs₁, _⟩ => ?_
  have ht₁ := l₁.clear _ _ ht
  have ho₁ : Side.without.Owns V texture := ht₁.other
  refine (parting_of_calm (load_calm ht₁.defined ho₁)).bind fun image b₂ l₂ ⟨hs₂, himage, t, hload⟩ => ?_
  have l := l₁.trans l₂
  have hc₂ := l.clear _ _ hc
  have hrequest (hplain : ∀ w, lod.words[1]? = some w → b₂.Clear V .without ⟨w⟩)
      (hbound : ¬ free → ∀ w, lod.words[2]? = some w → b₂.Clear V .without ⟨w⟩)
      (hfree : free → lod.opcode = .imageSampleExplicitLod ∧ lod.words[0]? = some Machine.gradBit ∧
        ∀ w, lod.words[2]? = some w → b₂.Clear V .within ⟨w⟩) :
      (parting V).Ensures (emit lod.opcode vec (image.word :: coord.word :: lod.words)) b₂ fun id b' =>
        b'.Clear V .without id ∧ Requests V free texture lod b b' := by
    refine (emit_requests lod.isImageSample_opcode
      (sampled_of_operands himage.clear_without hc₂ hplain hbound hfree)).imp
      fun id b' l₃ ⟨hid, hsamples, hi⟩ => ⟨hid, _, ?_, hi, rfl, image, coord, rfl, t, l₃.code.subset hload⟩
    rw [hsamples, hs₂, hs₁]
  have hlod₂ := hlod.mono l
  cases lod with
  | implicit => exact hrequest nofun (fun _ => nofun) fun hf => absurd hf hlod₂
  | projective => exact hrequest nofun (fun _ => nofun) fun hf => absurd hf hlod₂
  | bias level =>
    refine hrequest ?_ (fun _ => nofun) fun hf => absurd hf hlod₂.1
    rintro w ⟨⟩
    exact hlod₂.2
  | gradient dx dy =>
    refine hrequest ?_ ?_ fun hf => ⟨rfl, rfl, ?_⟩
    · rintro w ⟨⟩
      exact hlod₂.1
    · rintro hf w ⟨⟩
      exact hlod₂.2.2 hf
    · rintro w ⟨⟩
      exact hlod₂.2.1 hf

/-- A fetch makes one request, and its texel is on the outside. -/
theorem fetch_requests {free : Prop} {texture : Ref} {coord : Coord} {dest : Encoding} {lod : FetchLod}
    (ht : b.Clear V .without texture) (hc : b.Clear V .without coord.value)
    (hlod : b.LodClear V free lod) :
    (parting V).Ensures (fetch texture coord dest lod) b fun id b' =>
      b'.Clear V .without id ∧ Requests V free texture lod b b' := by
  unfold fetch
  refine (parting_of_calm (normalizeCoord_calm hc)).bind fun coord b₁ l₁ ⟨hs₁, hcoord⟩ => ?_
  refine (sampleImage_requests (l₁.clear _ _ ht) hcoord (hlod.mono l₁)).bind
    fun texel b₂ _ ⟨htexel, i, hs₂, hi, hasks⟩ => ?_
  rw [hs₁] at hs₂
  split
  · refine (parting_of_calm (saturateTo_calm htexel)).imp fun id b₃ l₃ ⟨hs₃, hid⟩ =>
      ⟨hid, i, hs₃.trans hs₂, hi.imp l₃.clear, hasks.mono l₃.code.subset⟩
  · exact Ensures.pure _ ⟨htexel, i, hs₂, hi, hasks⟩

end Builder

end TextureLift
