import Mathlib.Data.Option.Basic
import TextureLift.Proofs.Lowering.Plan
import TextureLift.Proofs.Lowering.Unpack

/-!
# Loads of registers

The code for register accesses reads what `Operand.read` says, and storing a component changes the word
of one place:

    loadWindow op mask window    gives an id the lanes  op.read (L.state s).registers window mask.lanes
    storeComponent bank .. c v   leaves the registers   (L.state s).registers.set ⟨bank, .., c⟩ w

What the registers are at a point of the construction is left to a *ledger* `L`. It is a reckoning that
also knows the variables of slots: one can be declared, its four words can be loaded, and four words can
be stored in it. There is one for the run of a module from its start (`Launch.ledger`) and one for the
run of any part of its code (`Passage.ledger`).
-/

namespace TextureLift

open Builder Build Discipline Lowering Number

/-! ## Slots -/

namespace RegisterFile

variable {r : RegisterFile} {slot : Slot} {id : Ref}

theorem variableOf?_insert (r : RegisterFile) (slot slot' : Slot) (id : Ref) :
    (r.insert slot id).variableOf? slot' = if slot' = slot then some id else r.variableOf? slot' := by
  unfold RegisterFile.insert RegisterFile.variableOf?
  rw [List.lookup_cons]
  by_cases h : slot' = slot
  · rw [if_pos h, h, beq_self_eq_true]
  · rw [if_neg h, beq_false_of_ne h]

/-- The slots that have variables keep them. -/
theorem variableOf?_insert_of_some (hnone : r.variableOf? slot = none) {slot' : Slot} {id' : Ref}
    (h : r.variableOf? slot' = some id') : (r.insert slot id).variableOf? slot' = some id' := by
  rw [variableOf?_insert, if_neg]
  · exact h
  · rintro rfl
    rw [hnone] at h
    cases h

/-- What holds of the variables of all slots does so with one more. -/
theorem forall_insert {P : Slot → Ref → Prop} (hslot : P slot id)
    (h : ∀ slot' id', r.variableOf? slot' = some id' → P slot' id') (slot' : Slot) (id' : Ref)
    (h' : (r.insert slot id).variableOf? slot' = some id') : P slot' id' := by
  rw [variableOf?_insert] at h'
  split at h'
  · rename_i heq
    obtain rfl := Option.some.inj h'
    exact heq ▸ hslot
  · exact h slot' id' h'

/-- With a new variable for one more slot, slots have different variables. -/
theorem injective_insert (hnew : ∀ slot' id', r.variableOf? slot' = some id' → id' ≠ id)
    (hinjective : ∀ slot₁ slot₂ id', r.variableOf? slot₁ = some id' →
      r.variableOf? slot₂ = some id' → slot₁ = slot₂) (slot₁ slot₂ : Slot) (id' : Ref)
    (h₁ : (r.insert slot id).variableOf? slot₁ = some id')
    (h₂ : (r.insert slot id).variableOf? slot₂ = some id') : slot₁ = slot₂ := by
  rw [variableOf?_insert] at h₁ h₂
  split at h₁ <;> split at h₂
  · rename_i e₁ e₂
    rw [e₁, e₂]
  · exact absurd (Option.some.inj h₁).symm (hnew slot₂ id' h₂)
  · exact absurd (Option.some.inj h₂).symm (hnew slot₁ id' h₁)
  · exact hinjective slot₁ slot₂ id' h₁ h₂

end RegisterFile

namespace Registers

variable {r : Registers} {p : Place} {ws : List UInt32}

/-- The words of a slot are those of a list. -/
def HasSlot (r : Registers) (slot : Slot) (ws : List UInt32) : Prop :=
  ∀ p : Place, p.slot = slot → r p = ws.getD (p.component % 4).toNat 0

/-- The registers with the words of one slot replaced. -/
def fill (r : Registers) (slot : Slot) (ws : List UInt32) : Registers :=
  fun p => if p.slot = slot then ws.getD (p.component % 4).toNat 0 else r p

/-- To replace one of the words of a slot is to replace them all, with one of them another. -/
theorem fill_set (h : r.HasSlot p.slot ws) (hlen : ws.length = 4) (w : UInt32) :
    r.fill p.slot (ws.set (p.component % 4).toNat w) = r.set p w := by
  funext q
  unfold fill Registers.set
  by_cases hslot : q.slot = p.slot
  · have hlt := q.lane_lt
    rw [if_pos hslot, List.getD_eq_getElem?_getD, List.getElem?_set, hlen]
    by_cases hlane : (p.component % 4).toNat = (q.component % 4).toNat
    · rw [if_pos hlane, if_pos (by omega), if_pos (Place.ext_slot hslot hlane.symm)]
      rfl
    · rw [if_neg hlane, if_neg (fun heq => hlane (by rw [heq])), h q hslot,
        List.getD_eq_getElem?_getD]
  · rw [if_neg hslot, if_neg (fun heq => hslot (by rw [heq]))]

end Registers

/-! ## Lanes of operands -/

theorem LaneMask.length_lanes_le (mask : LaneMask) : mask.lanes.length ≤ 4 :=
  List.length_filter_le _ [0, 1, 2, 3]

theorem Operand.readable_of_mem {op : Operand} {slots : UInt32} {lanes : List (Fin 4)} {lane : Fin 4}
    (h : op.readable slots lanes = true) (hl : lane ∈ lanes) : op.readable slots [lane] = true := by
  unfold Operand.readable at h ⊢
  rw [Bool.or_eq_true] at h ⊢
  refine h.imp_right fun h => ?_
  rw [List.all_cons, List.all_nil, Bool.and_true]
  exact List.all_eq_true.1 h lane hl

namespace Emit

variable {D : Discipline Emitter} {s : Emitter} {op : Operand} {element : UInt32}

/-- What a lifted action does to the module it does here, and it leaves the slots as they are. -/
theorem lift_ensures {α : Type} {D : Discipline Builder} {D' : Discipline Emitter} {a : Build α}
    {Q : α → Builder → Prop} (h : D.Ensures a s.builder Q) (hk : D'.keeps s → D.keeps s.builder)
    (hf : ∀ f, D.faults f → D'.faults f)
    (hl : ∀ v b, D'.keeps s → D.keeps b → D.leads s.builder b → Q v b →
      D'.keeps ⟨b, s.registers⟩ ∧ D'.leads s ⟨b, s.registers⟩) :
    D'.Ensures (liftM a) s fun v s' => Q v s'.builder ∧ s'.registers = s.registers := by
  intro hs
  have h1 := h (hk hs)
  cases ha : a s.builder with
  | error f =>
    rw [ha] at h1
    have he : (liftM a : Emit α) s = .error f := by
      show (a s.builder >>= fun r => _) = _
      rw [ha]
      rfl
    rw [he]
    exact hf f h1
  | ok r =>
    rw [ha] at h1
    have he : (liftM a : Emit α) s = .ok (r.1, ⟨r.2, s.registers⟩) := by
      show (a s.builder >>= fun r => _) = _
      rw [ha]
      rfl
    rw [he]
    obtain ⟨h2, h3⟩ := hl r.1 r.2 hs h1.1 h1.2.1 h1.2.2
    exact ⟨h2, h3, h1.2.2, rfl⟩

/-- Computations that may end in a fault, within the code for registers. -/
theorem lift_except {α : Type} {y : Except Fault α} {Q : α → Emitter → Prop}
    (h : ∀ v, y = .ok v → Q v s) (hf : ∀ f, y = .error f → D.faults f) :
    D.Ensures (liftM y) s Q := by
  cases hy : y with
  | ok v => exact Ensures.of_ok rfl fun hs => ⟨hs, D.refl s, h v hy⟩
  | error f => exact Ensures.of_error rfl (hf f hy)

/-- The component of an element, unless its index leaves the words. -/
theorem componentOf_ensures (hadd : D.faults .overflow ∨ op.InWords element) :
    D.Ensures (liftM (RegisterFile.componentOf op element)) s fun c s' =>
      s' = s ∧ RegisterFile.componentOf op element = .ok c ∧ c = op.componentAt element := by
  by_cases hw : op.InWords element
  · have hc := RegisterFile.componentOf_of_inWords hw
    refine lift_except (fun c h => ⟨rfl, h, ?_⟩) fun f h => ?_
    · rw [hc] at h
      exact (Except.ok.inj h).symm
    · rw [hc] at h
      cases h
  · have hc := RegisterFile.componentOf_of_not_inWords hw
    refine lift_except (fun c h => ?_) fun f h => ?_
    · rw [hc] at h
      cases h
    · rw [hc] at h
      obtain rfl := Except.error.inj h
      exact hadd.resolve_right hw

/-- Whether a component has storage, unless the size of a bank leaves the words. -/
theorem inRange_ensures {bank : Bank} {component : UInt32}
    (hmul : D.faults .overflow ∨ s.registers.slotsPerBank.toNat * 4 < UInt32.size) :
    D.Ensures (Emit.inRange bank component) s fun v s' =>
      s' = s ∧ s.registers.inRange bank component = .ok v := by
  refine Ensures.get_bind (lift_except (fun v h => ⟨rfl, h⟩) fun f h => ?_)
  by_cases hlt : s.registers.slotsPerBank.toNat * 4 < UInt32.size
  · rw [RegisterFile.inRange_of_lt hlt] at h
    cases h
  · rw [RegisterFile.inRange_of_ge hlt] at h
    split at h
    · obtain rfl := Except.error.inj h
      exact hmul.resolve_right hlt
    · cases h

end Emit

/-! ## Ledgers -/

/-- What registers hold while code for them is emitted, and what accesses need of it. -/
structure Ledger extends Reckoning where
  /-- Actions whose code may write registers. -/
  moving : Discipline Emitter
  /-- Actions whose code writes no register and requests nothing. -/
  resting : Discipline Emitter
  /-- The registers are known. -/
  Sees : Emitter → Prop
  /-- Slots are known to have variables of their own. -/
  Distinct : Prop
  /-- Slots in each window of a bank. -/
  slots : Emitter → UInt32
  /-- The registers and requests after the code so far. -/
  state : Emitter → ShaderState
  moving_of_resting : ∀ {α : Type} {a : Emit α} {s Q}, resting.Ensures a s Q →
    moving.Ensures a s fun v s' => resting.leads s s' ∧ Q v s'
  moves_of_rests : ∀ {s s'}, resting.leads s s' → moving.leads s s'
  lift_quiet : ∀ {α : Type} {a : Build α} {s : Emitter} {Q : α → Builder → Prop},
    quiet.Ensures a s.builder Q →
    resting.Ensures (liftM a) s fun v s' => Q v s'.builder ∧ s'.registers = s.registers
  holds_of_moves : ∀ {s s' : Emitter} {id k bits}, Holds s.builder id k bits → moving.leads s s' →
    Holds s'.builder id k bits
  sees_of_moves : ∀ {s s'}, moving.leads s s' → Sees s' → Sees s
  state_of_rests : ∀ {s s'}, resting.leads s s' → Sees s' → state s' = state s
  variable_of_moves : ∀ {s s' : Emitter} {slot id}, moving.leads s s' →
    s.registers.variableOf? slot = some id → s'.registers.variableOf? slot = some id
  slots_of_moves : ∀ {s s'}, moving.leads s s' → slots s' = slots s
  slots_of_moving : ∀ {s}, moving.keeps s → s.registers.slotsPerBank = slots s
  slots_of_resting : ∀ {s}, resting.keeps s → s.registers.slotsPerBank = slots s
  defined_of_slot : ∀ {s : Emitter} {slot id}, resting.keeps s →
    s.registers.variableOf? slot = some id → (s.builder.definition? id).isSome
  variableOf_ensures : ∀ {b p}, b.LaneType p .f32 4 → quiet.Ensures (variableOf .priv p) b
    fun id b' => b.definition? id = none ∧ b'.HasVariable id .priv
  /-- A variable that was just declared may become that of a slot. -/
  insert_rests : ∀ {s s' : Emitter} {slot id}, resting.keeps s → resting.keeps s' →
    quiet.leads s.builder s'.builder → s.builder.definition? id = none →
    s'.builder.HasVariable id .priv → s'.registers.variableOf? slot = none →
    (∀ slot' id', s'.registers.variableOf? slot' = some id' → id' ≠ id) →
    resting.keeps { s' with registers := s'.registers.insert slot id } ∧
      resting.leads s' { s' with registers := s'.registers.insert slot id }
  load_ensures : ∀ {s slot pointer}, s.registers.variableOf? slot = some pointer →
    resting.Ensures (liftM (load pointer)) s fun id s' => ∃ ws, Bears s'.builder id .f32 ws ∧
      ws.length = 4 ∧ (Sees s' → (state s).registers.HasSlot slot ws)
  /-- Stores go to the primary window. -/
  store_ensures : ∀ {s : Emitter} {slot pointer value ws}, slot.window = Window.primary →
    s.registers.variableOf? slot = some pointer → Holds s.builder value .f32 ws → ws.length = 4 →
    moving.Ensures (liftM (store pointer value)) s fun _ s' => Sees s' → Distinct →
      state s' = { state s with registers := (state s).registers.fill slot ws }

namespace Ledger

variable {L : Ledger} {s s' : Emitter} {id : Ref} {k : ScalarKind} {bits : List UInt32}

theorem sees_of_rests (h : L.resting.leads s s') (hs : L.Sees s') : L.Sees s :=
  L.sees_of_moves (L.moves_of_rests h) hs

/-- What only computes rests, also among actions that move. -/
theorem moving_of_quiet {α : Type} {a : Build α} {Q : α → Builder → Prop}
    (h : L.quiet.Ensures a s.builder Q) :
    L.moving.Ensures (liftM a) s fun v s' => L.resting.leads s s' ∧ Q v s'.builder :=
  L.moving_of_resting ((L.lift_quiet h).imp fun _ _ _ h => h.1)

/-! ## Values -/

/-- The id has lanes of a kind, and they are `bits` if the registers are known. -/
def Gives (L : Ledger) (s : Emitter) (id : Ref) (k : ScalarKind) (bits : List UInt32) : Prop :=
  ∃ lanes, L.Holds s.builder id k lanes ∧ lanes.length = bits.length ∧ (L.Sees s → lanes = bits)

theorem Gives.of_holds (h : L.Holds s.builder id k bits) : L.Gives s id k bits :=
  ⟨bits, h, rfl, fun _ => rfl⟩

theorem Gives.mono (h : L.Gives s id k bits) (hm : L.moving.leads s s') : L.Gives s' id k bits := by
  obtain ⟨lanes, hl, hlen, heq⟩ := h
  exact ⟨lanes, L.holds_of_moves hl hm, hlen, fun hs => heq (L.sees_of_moves hm hs)⟩

/-- Lanes that are others if the registers are known. -/
theorem Gives.congr (h : L.Gives s id k bits) (bits' : List UInt32)
    (hlen : bits'.length = bits.length) (heq : L.Sees s → bits' = bits) : L.Gives s id k bits' := by
  obtain ⟨lanes, hl, hlen', heq'⟩ := h
  exact ⟨lanes, hl, by rw [hlen', hlen], fun hs => by rw [heq' hs, heq hs]⟩

theorem Gives.carries (h : L.Gives s id k bits) : s.builder.Carries id k bits.length := by
  obtain ⟨lanes, hl, hlen, -⟩ := h
  exact hlen ▸ Reckoning.carries_of_holds hl

/-- Values that are given one by one. -/
theorem holdEach_of_gives {α : Type} {f : α → UInt32} {l : List α} {ids : List Ref}
    (h : List.Forall₂ (fun a id => L.Gives s id .f32 [f a]) l ids) :
    ∃ ws, L.HoldEach s.builder ids ws ∧ ws.length = l.length ∧ (L.Sees s → ws = l.map f) := by
  induction h with
  | nil => exact ⟨[], .nil, rfl, fun _ => rfl⟩
  | cons hid _ ih =>
    obtain ⟨ws, hws, hlen, heq⟩ := ih
    obtain ⟨words, hw, hlen', heq'⟩ := hid
    obtain ⟨w, rfl⟩ := List.length_eq_one_iff.1 hlen'
    refine ⟨w :: ws, .cons hw hws, congrArg Nat.succ hlen, fun hs => ?_⟩
    rw [heq hs, List.singleton_inj.1 (heq' hs)]
    rfl

/-! ## Components -/

/-- The variable of a slot, declared on first use. -/
theorem slotVariable_ensures (slot : Slot) : L.resting.Ensures (Emit.slotVariable slot) s
    fun id s' => s'.registers.variableOf? slot = some id := by
  unfold Emit.slotVariable
  refine Ensures.get_bind ?_
  cases hv : s.registers.variableOf? slot with
  | some id => exact Ensures.pure _ hv
  | none =>
    refine (L.lift_quiet (L.floatVectorType_ensures 4)).bind fun vec s₁ _ h₁ =>
      Ensures.assume fun hk₁ => ?_
    refine (L.lift_quiet ((L.variableOf_ensures h₁.1).imp fun _ _ hq h => And.intro hq h)).bind
      fun id s₂ _ h₂ => ?_
    obtain ⟨⟨hq, hnew, hid⟩, hreg⟩ := h₂
    -- the variables of other slots were there before
    have hfresh (slot' : Slot) (id' : Ref) (h : s₂.registers.variableOf? slot' = some id') :
        id' ≠ id := by
      rintro rfl
      rw [hreg] at h
      have hdefined := L.defined_of_slot hk₁ h
      rw [hnew] at hdefined
      cases hdefined
    refine Ensures.of_ok (v := id) (t := { s₂ with registers := s₂.registers.insert slot id }) rfl
      fun hk₂ => ?_
    obtain ⟨hk₃, hr₃⟩ := L.insert_rests hk₁ hk₂ hq hnew hid (by rw [hreg, h₁.2, hv]) hfresh
    exact ⟨hk₃, hr₃, by rw [RegisterFile.variableOf?_insert, if_pos rfl]⟩

/-- A load of a component gives the word of its place. -/
theorem loadComponent_ensures (bank : Bank) (window : UInt8) (component : UInt32) :
    L.resting.Ensures (Emit.loadComponent bank window component) s fun id s' =>
      L.Gives s' id .f32 [(L.state s).registers ⟨bank, window, component⟩] := by
  unfold Emit.loadComponent
  refine (slotVariable_ensures _).bind fun pointer s₁ r₁ hp => ?_
  refine (L.load_ensures hp).bind fun four s₂ r₂ h₂ => ?_
  obtain ⟨ws, hfour, hlen, hws⟩ := h₂
  have hlane : ws[(component % 4).toNat]? = some (ws.getD (component % 4).toNat 0) := by
    have hlt : (component % 4).toNat < ws.length := by
      rw [hlen]
      exact UInt32.mod_lt component (by decide)
    rw [List.getD_eq_getElem?_getD, List.getElem?_eq_getElem hlt]
    rfl
  refine (L.lift_quiet (Reckoning.extract_ensures hfour hlane)).imp fun id s₃ r₃ h₃ =>
    ⟨_, h₃.1, rfl, fun hs => ?_⟩
  have hs₂ := sees_of_rests r₃ hs
  rw [← L.state_of_rests r₁ (sees_of_rests r₂ hs₂), hws hs₂ ⟨bank, window, component⟩ rfl]

/-- A store of a component changes the word of its place. -/
theorem storeComponent_ensures {bank : Bank} {component w : UInt32} {value : Ref}
    (hv : L.Gives s value .f32 [w]) :
    L.moving.Ensures (Emit.storeComponent bank Window.primary component value) s fun _ s' =>
      L.Sees s' → L.Distinct → L.state s' = { L.state s with
        registers := (L.state s).registers.set ⟨bank, Window.primary, component⟩ w } := by
  unfold Emit.storeComponent
  refine (L.moving_of_resting (slotVariable_ensures _)).bind fun pointer s₁ _ h₁ => ?_
  obtain ⟨r₁, hp⟩ := h₁
  refine (L.moving_of_resting (L.load_ensures hp)).bind fun four s₂ m₂ h₂ => ?_
  obtain ⟨r₂, ws, hfour, hlen, hws⟩ := h₂
  obtain ⟨lanes, hlanes, hlen', heq⟩ := hv.mono (L.moving.trans (L.moves_of_rests r₁) m₂)
  obtain ⟨w', rfl⟩ := List.length_eq_one_iff.1 hlen'
  have hlt : (component % 4).toNat < ws.length := by
    rw [hlen]
    exact UInt32.mod_lt component (by decide)
  refine (moving_of_quiet (Reckoning.insert_ensures hfour hlanes hlt)).bind fun updated s₃ m₃ h₃ => ?_
  obtain ⟨r₃, hupdated⟩ := h₃
  have hp₃ := L.variable_of_moves (L.moving.trans m₂ m₃) hp
  refine (L.store_ensures rfl hp₃ hupdated (by rw [List.length_set, hlen])).imp
    fun _ s₄ m₄ h₄ hs hd => ?_
  have hs₃ := L.sees_of_moves m₄ hs
  have hs₂ := sees_of_rests r₃ hs₃
  have hstate₂ := L.state_of_rests r₂ hs₂
  have hstate₁ := L.state_of_rests r₁ (sees_of_rests r₂ hs₂)
  have hslot := hws hs₂
  obtain rfl := List.singleton_inj.1 (heq hs₂)
  rw [h₄ hs hd, L.state_of_rests r₃ hs₃, hstate₂, hstate₁]
  rw [hstate₁] at hslot
  exact congrArg (fun r => { L.state s with registers := r })
    (Registers.fill_set (p := ⟨bank, Window.primary, component⟩) hslot hlen w')

/-! ## Loads -/

section Loads

variable {op : Operand} {window : UInt8}
  (hmul : L.resting.faults .overflow ∨ (L.slots s).toNat * 4 < UInt32.size)

include hmul

/-- One lane of an operand, as the number that it reads. -/
theorem loadLane_yields {lane : Fin 4} (hr : op.readable (L.slots s) [lane] = true) :
    L.resting.Yields (Emit.loadLane op window lane) s fun id s' =>
      L.Gives s' id .f32 [op.readLane (L.state s).registers window lane] := by
  unfold Emit.loadLane Operand.readLane
  dsimp only
  unfold Operand.readable at hr
  simp only [List.all_cons, List.all_nil, Bool.and_true, Bool.or_eq_true, decide_eq_true_eq] at hr
  cases hc : (op.swizzle.channel lane).element? with
  | none =>
    exact Yields.lift ((L.lift_quiet (L.floatConstant_ensures _)).imp fun _ _ _ h => .of_holds h.1)
  | some element =>
    rw [hc] at hr
    by_cases hb : op.bank = .immediate
    · simp only [if_pos hb]
      exact Yields.lift ((L.lift_quiet (L.floatConstant_ensures _)).imp fun _ _ _ h => .of_holds h.1)
    · simp only [if_neg hb]
      have hs : op.hasStorage (L.slots s) element = true := hr.resolve_left hb
      have hadd : L.resting.faults .overflow ∨ op.InWords element :=
        hmul.imp_right (Operand.inWords_of_hasStorage hs)
      refine Yields.bind (Yields.lift (Emit.componentOf_ensures hadd)) fun component s₁ _ h₁ => ?_
      obtain ⟨rfl, hc, hcomponent⟩ := h₁
      refine Ensures.assume fun hk => ?_
      have hslots := L.slots_of_resting hk
      refine Yields.bind (Yields.lift (Emit.inRange_ensures (by rw [hslots]; exact hmul)))
        fun inRange s₁ _ h₁ => ?_
      obtain ⟨rfl, hin⟩ := h₁
      rw [RegisterFile.storage_of_inRange hc hin, hslots, hs]
      refine Yields.bind (Yields.pure (Q := fun _ t => t = s₁) () rfl) fun _ t _ ht => ?_
      obtain rfl := ht
      refine Yields.bind (Yields.lift (loadComponent_ensures _ _ _)) fun raw s₂ r₂ h₂ => ?_
      obtain ⟨words, hraw, hlen, heq⟩ := h₂
      obtain ⟨w, rfl⟩ := List.length_eq_one_iff.1 hlen
      refine Yields.lift ((L.lift_quiet (Reckoning.unpackLane_ensures
        (UInt32.mod_lt _ Encoding.lanesPerComponent_pos) hraw)).imp fun id s₃ r₃ h₃ => ?_)
      refine ⟨_, h₃.1, rfl, fun hs => ?_⟩
      obtain rfl := List.singleton_inj.1 (heq (sees_of_rests r₃ hs))
      rw [hcomponent, Encoding.wordLanes_eq]

/-- The lanes of an operand one by one. -/
theorem loadLanes_yields {lanes : List (Fin 4)} (hr : op.readable (L.slots s) lanes = true) :
    L.resting.Yields (lanes.mapM (Emit.loadLane op window)) s fun ids s' =>
      List.Forall₂ (fun lane id => L.Gives s' id .f32
        [op.readLane (L.state s).registers window lane]) lanes ids := by
  refine Yields.mapM (D := L.resting) lanes (fun _ _ _ _ hl h => h.mono (L.moves_of_rests hl))
    fun lane hlane t ht => ?_
  have hslots := L.slots_of_moves (L.moves_of_rests ht)
  refine (loadLane_yields (hslots ▸ hmul) (hslots ▸ Operand.readable_of_mem hr hlane)).imp
    fun id s' hs' h => h.congr _ rfl fun hs => ?_
  rw [L.state_of_rests ht (sees_of_rests hs' hs)]

/-- The lanes of a mask, as one value. -/
theorem loadWindow_yields {mask : LaneMask} (hne : mask.lanes ≠ [])
    (hr : op.readable (L.slots s) mask.lanes = true) :
    L.resting.Yields (Emit.loadWindow op mask window) s fun id s' =>
      L.Gives s' id .f32 (op.read (L.state s).registers window mask.lanes) := by
  unfold Emit.loadWindow Operand.read
  refine (loadLanes_yields hmul hr).bind fun ids s₁ r₁ hids => ?_
  obtain ⟨ws, hws, hlen, heq⟩ := holdEach_of_gives hids
  have hlen' := hids.length_eq
  have hle := mask.length_lanes_le
  unfold Reckoning.HoldEach at hws
  cases hws with
  | nil =>
    rw [List.length_nil, List.length_eq_zero_iff] at hlen'
    exact absurd hlen' hne
  | cons hid hrest =>
    cases hrest with
    | nil => exact Yields.pure _ ⟨_, hid, by rw [hlen, List.length_map], heq⟩
    | cons hid' hrest =>
      have hws := List.Forall₂.cons (R := fun id w => L.Holds s₁.builder id .f32 [w]) hid
        (List.Forall₂.cons hid' hrest)
      refine Yields.bind (Yields.lift (L.lift_quiet (L.floatVectorType_ensures _)))
        fun vec s₂ r₂ h₂ => ?_
      have hws₂ := hws.imp fun _ _ h => L.holds_of_moves h (L.moves_of_rests r₂)
      refine Yields.lift ((L.lift_quiet (Reckoning.construct_ensures hws₂ (L.admits_of_le ?_) ?_)).imp
        fun v s₃ r₃ h₃ => ⟨_, h₃.1, by rw [hlen, List.length_map], fun hs => ?_⟩)
      · omega
      · have hcount := L.lanes_of_laneType h₂.1
        rw [UInt32.toNat_ofNat_of_lt' (by rw [← hlen']; show _ < 4294967296; omega), ← hlen',
          ← hlen] at hcount
        exact hcount
      · exact heq (sees_of_rests r₂ (sees_of_rests r₃ hs))

end Loads

end Ledger

end TextureLift
