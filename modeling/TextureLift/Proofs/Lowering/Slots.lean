import TextureLift.Proofs.Lowering.Computation
import TextureLift.Proofs.Lowering.Frame
import TextureLift.Proofs.Lowering.Transfer

/-!
# The variables of slots

A slot of registers has a private variable of four floats, which is declared when the slot is first
read or written and stays with it. Whatever ids the code is given, slots within the banks alone are
asked for, no two share a variable, and stores go to those of the primary window.
-/

namespace TextureLift

open Build Discipline Lowering

/-! ## Lifted actions -/

theorem Emit.exists_of_lift {α : Type} {a : Build α} {s t : Emitter} {v : α}
    (h : (liftM a : Emit α) s = .ok (v, t)) :
    ∃ b, a s.builder = .ok (v, b) ∧ t = ⟨b, s.registers⟩ := by
  obtain ⟨⟨w, b⟩, ha, hr⟩ := exists_of_bind (show (a s.builder >>= fun r => _) = _ from h)
  obtain ⟨rfl, rfl⟩ := Prod.mk.inj (Except.ok.inj hr)
  exact ⟨b, ha, rfl⟩

theorem Lower.exists_of_lift {α : Type} {a : Emit α} {c c' : Context} {v : α}
    (h : (liftM a : Lower α) c = .ok (v, c')) :
    ∃ s, a c.toEmitter = .ok (v, s) ∧ c' = c.emitting s := by
  obtain ⟨⟨w, s⟩, ha, hr⟩ := exists_of_bind (show (a c.toEmitter >>= fun r => _) = _ from h)
  obtain ⟨rfl, rfl⟩ := Prod.mk.inj (Except.ok.inj hr)
  exact ⟨s, ha, rfl⟩

/-- Where any fault is allowed, only results have to be looked at. -/
theorem Discipline.Ensures.of_results {σ α : Type} {D : Discipline σ} (hf : ∀ f, D.faults f)
    {a : StateT σ (Except Fault) α} {s : σ} {Q : α → σ → Prop}
    (h : ∀ v t, a s = .ok (v, t) → D.keeps s → D.keeps t ∧ D.leads s t ∧ Q v t) : D.Ensures a s Q := by
  cases ha : a s with
  | error f => exact of_error ha (hf f)
  | ok r => exact of_ok ha fun hs => h r.1 r.2 ha hs

/-! ## Declarations -/

namespace Builder

variable {b b' b'' : Builder} {id : Ref} {s : Storage}

/-- One variable was declared; stores, decorations and entry points are as they were. -/
structure Declares (id : Ref) (s : Storage) (b b' : Builder) : Prop where
  table : TableLe b b'
  new : b.definition? id = none
  declared : b'.HasVariable id s
  vars : ∀ id' t s', b'.definition? id' = some (.var t s') →
    id' = id ∧ s' = s ∨ b.definition? id' = some (.var t s')
  stores : b'.stores = b.stores
  decorations : b'.decorations = b.decorations
  entries : b'.entryPoints = b.entryPoints

/-- An id that is defined after a computation but not before it is not defined before it. -/
theorem TableLe.none_of_none (hle : TableLe b b') (h : b'.definition? id = none) :
    b.definition? id = none := by
  cases hd : b.definition? id with
  | none => rfl
  | some d =>
    rw [hle.definition hd] at h
    cases h

theorem Declares.after_computes (h : Declares id s b' b'') (hc : b.Computes b') :
    Declares id s b b'' where
  table := hc.table.trans h.table
  new := hc.table.none_of_none h.new
  declared := h.declared
  vars id' t s' hid := (h.vars id' t s' hid).imp_right (hc.vars id' t s')
  stores := h.stores.trans hc.stores
  decorations := h.decorations.trans hc.decorations
  entries := h.entries.trans hc.entries

theorem fresh_var_declares {t : Ref} (hb : b.definitions.size < UInt32.size)
    (ht : b.VariableType t s) (h : fresh (.var t s) b = .ok (id, b')) :
    b'.definitions.size < UInt32.size ∧ Declares id s b b' := by
  by_cases hsize : b.definitions.size + 1 < UInt32.size
  · rw [show fresh (.var t s) b = _ from if_pos hsize] at h
    obtain ⟨rfl, rfl⟩ := Prod.mk.inj (Except.ok.inj h)
    have hle : TableLe b { b with definitions := b.definitions.push (.var t s) } := tableLe_push _ rfl
    have hnone : b.definition? ⟨.ofNat b.definitions.size⟩ = none :=
      Option.eq_none_iff_forall_ne_some.2 (Environment.next_not_defined (UInt32.toNat_ofNat_of_lt' hb))
    refine ⟨by simpa using hsize, hle, hnone, ⟨t, definition?_next rfl hb, ht.mono hle⟩, ?_, rfl, rfl,
      rfl⟩
    intro id' t' s' hid
    rcases definition?_of_push rfl hid with hid | ⟨hlast, heq⟩
    · exact .inr hid
    · obtain ⟨rfl, rfl⟩ := Definition.var.inj heq
      refine .inl ⟨?_, rfl⟩
      obtain ⟨w⟩ := id'
      rw [← hlast, UInt32.ofNat_toNat]
  · rw [show fresh (.var t s) b = _ from if_neg hsize] at h
    cases h

/-- The variable is new and all that is declared. -/
theorem variableOf_declares {pointee : Ref} (hb : b.definitions.size < UInt32.size)
    (hp : if s = .uniformConstant then ∃ image, b.typeDecl? pointee = some (.sampledImage image)
      else b.LaneType pointee .f32 4) (h : variableOf s pointee b = .ok (id, b')) :
    b'.definitions.size < UInt32.size ∧ Declares id s b b' := by
  obtain ⟨pointer, b₁, h₁, h₂⟩ := exists_of_run_bind h
  obtain ⟨hb₁, l₁, hpointer⟩ := (type_computes _).result hb h₁
  have htype : b₁.VariableType pointer s := by
    refine ⟨pointee, hpointer, ?_⟩
    split
    · rename_i hs
      rw [if_pos hs] at hp
      obtain ⟨image, himage⟩ := hp
      exact ⟨image, l₁.table.typeDecl himage⟩
    · rename_i hs
      rw [if_neg hs] at hp
      exact hp.mono l₁.table
  obtain ⟨hb', hd⟩ := fresh_var_declares hb₁ htype h₂
  exact ⟨hb', hd.after_computes l₁⟩

/-- A variable of four floats. -/
theorem fourFloats_declares (hs : s ≠ .uniformConstant) {vec : Ref} {b₁ : Builder}
    (hb : b.definitions.size < UInt32.size) (hvec : floatVectorType 4 b = .ok (vec, b₁))
    (h : variableOf s vec b₁ = .ok (id, b')) :
    b'.definitions.size < UInt32.size ∧ Declares id s b b' := by
  obtain ⟨hb₁, l₁, hlane⟩ := floatVector_computes.result hb hvec
  obtain ⟨hb', hd⟩ := variableOf_declares hb₁ (by rw [if_neg hs]; exact hlane) h
  exact ⟨hb', hd.after_computes l₁⟩

end Builder

/-! ## Slots -/

namespace Emitter

variable {s s' s'' : Emitter} {slot : Slot} {id : Ref}

/-- Slots have private variables of their own within the banks, and stores go to those of the primary
window. -/
structure Allotted (s : Emitter) : Prop where
  size : s.builder.definitions.size < UInt32.size
  slots : ∀ slot id, s.registers.variableOf? slot = some id →
    slot.Fits s.registers.slotsPerBank ∧ s.builder.HasVariable id .priv
  injective : ∀ slot slot' id, s.registers.variableOf? slot = some id →
    s.registers.variableOf? slot' = some id → slot = slot'
  stores : ∀ i ∈ s.builder.stores, Launch.ToPrimary s.registers i

/-- Slots keep their variables, and only private variables are declared. -/
structure Allots (s s' : Emitter) : Prop where
  sized : s'.registers.slotsPerBank = s.registers.slotsPerBank
  slots : ∀ slot id, s.registers.variableOf? slot = some id → s'.registers.variableOf? slot = some id
  table : Builder.TableLe s.builder s'.builder
  vars : ∀ id t st, s'.builder.definition? id = some (.var t st) →
    st = .priv ∨ s.builder.definition? id = some (.var t st)
  decorations : s'.builder.decorations = s.builder.decorations
  entries : s'.builder.entryPoints = s.builder.entryPoints

theorem Allots.refl (s : Emitter) : Allots s s :=
  ⟨rfl, fun _ _ h => h, Builder.TableLe.refl _, fun _ _ _ h => .inr h, rfl, rfl⟩

theorem Allots.trans (h : Allots s s') (h' : Allots s' s'') : Allots s s'' where
  sized := h'.sized.trans h.sized
  slots slot id hid := h'.slots slot id (h.slots slot id hid)
  table := h.table.trans h'.table
  vars id t st hid := (h'.vars id t st hid).elim .inl (h.vars id t st)
  decorations := h'.decorations.trans h.decorations
  entries := h'.entries.trans h.entries

/-- Actions that keep slots in order. -/
def allotting : Discipline Emitter where
  keeps := Allotted
  leads := Allots
  faults _ := True
  refl := Allots.refl
  trans := Allots.trans

theorem toPrimary_mono {i : Inst} (h : Launch.ToPrimary s.registers i)
    (hslots : ∀ slot id, s.registers.variableOf? slot = some id →
      s'.registers.variableOf? slot = some id) : Launch.ToPrimary s'.registers i := by
  obtain ⟨slot, id, hid, hrest⟩ := h
  exact ⟨slot, id, hslots slot id hid, hrest⟩

/-- Computations leave the slots alone. -/
theorem lift_allots {α : Type} {a : Build α} (ha : Computes a) :
    allotting.Ensures (liftM a) s fun _ s' => s'.registers = s.registers := by
  have hlift : allotting.Ensures (liftM a) s fun _ s' => True ∧ s'.registers = s.registers := by
    refine Emit.lift_ensures (ha s.builder) (fun hk => hk.size) (fun _ _ => trivial)
      fun _ b hk hb hl _ => ⟨⟨hb, fun slot id hid => ?_, hk.injective, ?_⟩, rfl, fun _ _ h => h,
        hl.table, fun id t st h => .inr (hl.vars id t st h), hl.decorations, hl.entries⟩
    · exact ⟨(hk.slots slot id hid).1, (hk.slots slot id hid).2.mono hl.table⟩
    · show ∀ i ∈ b.stores, _
      rw [hl.stores]
      exact hk.stores
  exact hlift.imp fun _ _ _ h => h.2

/-- The variable of a slot, declared on first use. -/
theorem exists_of_slotVariable (h : Emit.slotVariable slot s = .ok (id, s')) :
    s.registers.variableOf? slot = some id ∧ s' = s ∨
    s.registers.variableOf? slot = none ∧ ∃ vec b₁ b, floatVectorType 4 s.builder = .ok (vec, b₁) ∧
      variableOf .priv vec b₁ = .ok (id, b) ∧ s' = ⟨b, s.registers.insert slot id⟩ := by
  unfold Emit.slotVariable at h
  rw [get_bind_run] at h
  cases hslot : s.registers.variableOf? slot with
  | some id' =>
    rw [hslot] at h
    obtain ⟨rfl, rfl⟩ := Prod.mk.inj (Except.ok.inj h)
    exact .inl ⟨rfl, rfl⟩
  | none =>
    rw [hslot] at h
    obtain ⟨vec, s₁, h₁, h⟩ := exists_of_run_bind h
    obtain ⟨b₁, hvec, rfl⟩ := Emit.exists_of_lift h₁
    obtain ⟨id', s₂, h₂, h⟩ := exists_of_run_bind h
    obtain ⟨b₂, hid, rfl⟩ := Emit.exists_of_lift h₂
    obtain ⟨rfl, rfl⟩ := Prod.mk.inj (Except.ok.inj h)
    exact .inr ⟨rfl, vec, b₁, b₂, hvec, hid, rfl⟩

theorem Allotted.insert (h : s.Allotted) {b : Builder} (hb : b.definitions.size < UInt32.size)
    (hd : Builder.Declares id .priv s.builder b) (hfits : slot.Fits s.registers.slotsPerBank)
    (hnone : s.registers.variableOf? slot = none) :
    Allotted ⟨b, s.registers.insert slot id⟩ ∧ Allots s ⟨b, s.registers.insert slot id⟩ := by
  have hslots (slot' : Slot) (id' : Ref) (hid : s.registers.variableOf? slot' = some id') :
      (s.registers.insert slot id).variableOf? slot' = some id' :=
    RegisterFile.variableOf?_insert_of_some hnone hid
  have hne (slot' : Slot) (id' : Ref) (hid : s.registers.variableOf? slot' = some id') : id' ≠ id := by
    rintro rfl
    obtain ⟨-, t, ht, -⟩ := h.slots slot' id' hid
    rw [hd.new] at ht
    cases ht
  refine ⟨⟨hb, RegisterFile.forall_insert ⟨hfits, hd.declared⟩ fun slot' id' hid =>
      ⟨(h.slots slot' id' hid).1, (h.slots slot' id' hid).2.mono hd.table⟩,
    RegisterFile.injective_insert hne h.injective, fun i hi => ?_⟩, rfl, hslots, hd.table,
    fun id' t st hid => ?_, hd.decorations, hd.entries⟩
  · have hi' : i ∈ s.builder.stores := hd.stores ▸ hi
    exact toPrimary_mono (h.stores i hi') hslots
  · exact (hd.vars id' t st hid).imp_left And.right

theorem slotVariable_allots (hfits : slot.Fits s.registers.slotsPerBank) :
    allotting.Ensures (Emit.slotVariable slot) s
      fun id s' => s'.registers.variableOf? slot = some id := by
  refine Ensures.of_results (fun _ => trivial) fun id s' h hk => ?_
  rcases exists_of_slotVariable h with ⟨hid, rfl⟩ | ⟨hnone, vec, b₁, b, hvec, hvar, rfl⟩
  · exact ⟨hk, Allots.refl _, hid⟩
  · obtain ⟨hb, hd⟩ := Builder.fourFloats_declares (by decide) hk.size hvec hvar
    obtain ⟨hk', hl⟩ := Allotted.insert hk hb hd hfits hnone
    refine ⟨hk', hl, ?_⟩
    rw [RegisterFile.variableOf?_insert, if_pos rfl]

theorem loadComponent_allots {bank : Bank} {window : UInt8} {component : UInt32}
    (hfits : Slot.Fits s.registers.slotsPerBank ⟨bank, window, component / 4⟩) :
    allotting.Ensures (Emit.loadComponent bank window component) s fun _ _ => True :=
  (slotVariable_allots hfits).bind fun _ _ _ _ => (lift_allots (.load _)).bind fun _ _ _ _ =>
    (lift_allots (.extract _ _)).imp fun _ _ _ _ => trivial

/-- A store to the primary window. -/
theorem store_allots {pointer value : Ref} (hslot : slot.window = Window.primary)
    (hid : s.registers.variableOf? slot = some pointer) :
    allotting.Ensures (liftM (Build.store pointer value)) s fun _ _ => True := by
  refine Ensures.of_ok (v := ()) (t := ⟨_, s.registers⟩) rfl fun hk =>
    ⟨⟨hk.size, hk.slots, hk.injective, ?_⟩,
      ⟨rfl, fun _ _ h => h, Builder.TableLe.refl _, fun _ _ _ h => .inr h, rfl, rfl⟩, trivial⟩
  intro i hi
  rw [Builder.stores_append, if_pos rfl] at hi
  rcases List.mem_append.1 hi with hi | hi
  · exact hk.stores i hi
  · obtain rfl := List.mem_singleton.1 hi
    exact ⟨slot, pointer, hid, hslot, rfl⟩

theorem storeComponent_allots {bank : Bank} {component : UInt32} {value : Ref}
    (hfits : Slot.Fits s.registers.slotsPerBank ⟨bank, Window.primary, component / 4⟩) :
    allotting.Ensures (Emit.storeComponent bank Window.primary component value) s fun _ _ => True := by
  refine (slotVariable_allots hfits).bind fun pointer s₁ _ hid => ?_
  refine (lift_allots (.load pointer)).bind fun four s₂ _ h₂ => ?_
  refine (lift_allots (.insert value four _)).bind fun updated s₃ _ h₃ => ?_
  have hid₃ : s₃.registers.variableOf? ⟨bank, Window.primary, component / 4⟩ = some pointer := by
    rw [h₃, h₂]
    exact hid
  exact store_allots rfl hid₃

theorem allotting_transfers : Transfers allotting fun _ _ _ => True where
  overflow := trivial
  sized h := h.sized
  lasts _ h := h
  type := (lift_allots (.type _)).imp fun _ _ _ _ => trivial
  vector := (lift_allots (.floatVectorType _)).imp fun _ _ _ _ => trivial
  constant _ := (lift_allots (.floatConstant _)).imp fun _ _ _ _ => trivial
  construct _ := (lift_allots (.construct _ _)).imp fun _ _ _ _ => trivial
  unpack _ := (lift_allots (.unpackLane _ _ _)).imp fun _ _ _ _ => trivial
  load h := loadComponent_allots h
  encode _ := (lift_allots (.encodeValue _ _)).imp fun _ _ _ _ => trivial
  pick _ := (lift_allots (.pickLane _ _ _)).imp fun _ _ _ _ => trivial
  bitcast _ := (lift_allots (.bitcast _ _)).imp fun _ _ _ _ => trivial
  bits _ := (lift_allots (.laneBits _ _)).imp fun _ _ _ _ => trivial
  merge _ _ := (lift_allots (.mergeLane _ _ _ _)).imp fun _ _ _ _ => trivial
  store h _ := storeComponent_allots h

theorem emitQuery_allots {texture : Ref} {q : Query} :
    allotting.Ensures (emitQuery texture q) s fun _ _ => True := by
  unfold emitQuery
  cases q.divisorLane with
  | none =>
    exact (lift_allots (.fetch _ _ _ _)).bind fun _ _ _ _ => allotting_transfers.storeMask trivial
  | some lane =>
    exact (lift_allots (.projectedCoord _ _)).bind fun _ _ _ _ =>
      (lift_allots (.fetch _ _ _ _)).bind fun _ _ _ _ => allotting_transfers.storeMask trivial

theorem emitSample_allots {i : Sample} (info : SamplerInfo)
    (hi : i.takesEffect s.registers.slotsPerBank = true) :
    allotting.Succeeds (emitSample (planOf i info)) s fun _ _ => True := by
  unfold emitSample
  refine (allotting_transfers.loadCoord hi).bind fun coord s₁ l₁ _ => ?_
  refine (allotting_transfers.loadLod (by rw [l₁.sized]; exact hi)).bind fun lod s₂ _ _ => ?_
  exact Succeeds.lift_bind ((lift_allots (.fetch _ _ _ _)).bind fun _ _ _ _ =>
    allotting_transfers.storeMask trivial)

end Emitter

end TextureLift
