import TextureLift.Proofs.Lowering.Access
import TextureLift.Proofs.Lowering.Ledger

/-!
# Registers in memory

Slots of registers become private variables when they are first touched. A launch gives the contents
of all registers before the run; it agrees with a module if the variables of its slots start with
these contents. The registers at a point of the construction are then

    x.word s place   the lane of the slot's variable, or the first contents if there is no variable

so that declaring a slot changes no register. `Launch.state` is these words together with the
requests made so far. Actions that emit code for registers are specified by what they do to it:
`Launch.resting` for those that leave it alone, `Launch.moving` for all.
-/

namespace TextureLift

open Builder Discipline

/-- An environment and the registers before the run. -/
structure Launch extends Environment where
  registers : Registers
  /-- Slots in each window of a bank. -/
  slots : UInt32

namespace Launch

/-- A launch with empty memory, for what does not depend on the run. -/
def blank (slots : UInt32) : Launch :=
  ⟨⟨fun _ _ => ⟨0, 0, 0, 0⟩, ∅⟩, fun _ => 0, slots⟩

variable {x : Launch} {F : Fault → Prop} {s s' s'' : Emitter}

/-! ## Agreement -/

/-- The memory fits the module, and slots start with the contents of their registers. -/
structure Agrees (x : Launch) (s : Emitter) : Prop where
  fits : x.Fits s.builder
  slots : ∀ (p : Place) id, s.registers.variableOf? p.slot = some id →
    (x.firstContents id).getD (p.component % 4).toNat 0 = x.registers p

/-- The module is sound, and distinct slots have distinct private variables. -/
structure Keeps (x : Launch) (s : Emitter) : Prop where
  sound : x.Sound s.builder
  slots : s.registers.slotsPerBank = x.slots
  declared : ∀ slot id, s.registers.variableOf? slot = some id →
    ∃ t, s.builder.definition? id = some (.var t .priv)
  injective : ∀ slot slot' id, s.registers.variableOf? slot = some id →
    s.registers.variableOf? slot' = some id → slot = slot'

/-! ## Contents of registers -/

/-- The word of a place after a run of the code so far. -/
def word (x : Launch) (s : Emitter) (p : Place) : UInt32 :=
  match s.registers.variableOf? p.slot with
  | some id => (x.contents s.builder id).getD (p.component % 4).toNat 0
  | none => x.registers p

/-- The registers and requests after a run of the code so far. -/
def state (x : Launch) (s : Emitter) : ShaderState where
  registers := x.word s
  samples := (x.after s.builder).samples.toList

/-- A store to the variable of a slot in the primary window. -/
def ToPrimary (r : RegisterFile) (i : Inst) : Prop :=
  ∃ slot id, r.variableOf? slot = some id ∧ slot.window = Window.primary ∧ i.operandRef? 0 = some id

/-- The module grew and slots kept their variables. -/
structure Moves (x : Launch) (s s' : Emitter) : Prop where
  leads : x.Leads s.builder s'.builder
  slots : ∀ slot id, s.registers.variableOf? slot = some id →
    s'.registers.variableOf? slot = some id
  stores : ∃ new, s'.builder.stores = s.builder.stores ++ new ∧ ∀ i ∈ new, ToPrimary s'.registers i

theorem Moves.agrees (h : x.Moves s s') (ha : x.Agrees s') : x.Agrees s :=
  ⟨h.leads.fits ha.fits, fun p id hid => ha.slots p id (h.slots p.slot id hid)⟩

theorem Moves.refl (s : Emitter) : x.Moves s s :=
  ⟨Environment.Leads.refl _, fun _ _ h => h, [], by simp, by simp⟩

theorem Moves.trans (h : x.Moves s s') (h' : x.Moves s' s'') : x.Moves s s'' := by
  obtain ⟨new, hnew, hto⟩ := h.stores
  obtain ⟨new', hnew', hto'⟩ := h'.stores
  refine ⟨h.leads.trans h'.leads, fun slot id hid => h'.slots slot id (h.slots slot id hid),
    new ++ new', by rw [hnew', hnew, List.append_assoc], fun i hi => ?_⟩
  rcases List.mem_append.1 hi with hi | hi
  · obtain ⟨slot, id, hid, hrest⟩ := hto i hi
    exact ⟨slot, id, h'.slots slot id hid, hrest⟩
  · exact hto' i hi

/-- Actions that keep module and slots in order. -/
def moving (x : Launch) (F : Fault → Prop) : Discipline Emitter where
  keeps := x.Keeps
  leads := x.Moves
  faults := F
  refl := Moves.refl
  trans := Moves.trans

/-- Actions that also change no register and request nothing. -/
def resting (x : Launch) (F : Fault → Prop) : Discipline Emitter :=
  (x.moving F).still x.Agrees x.state Moves.agrees

/-! ## Builder actions -/

/-- Registers keep their words if their variables keep their contents. -/
theorem word_of_memory (hk : x.Keeps s) (hle : TableLe s.builder s'.builder)
    (hreg : s'.registers = s.registers)
    (hm : (x.after s'.builder).memory = (x.after s.builder).memory) : x.word s' = x.word s := by
  funext p
  unfold word
  rw [hreg]
  cases hp : s.registers.variableOf? p.slot with
  | none => rfl
  | some id =>
    obtain ⟨t, ht⟩ := hk.declared p.slot id hp
    simp only [Environment.contents_of_memory hk.sound.wellFormed hle hm ht]

theorem Keeps.grow (hk : x.Keeps s) (hs : x.Sound s'.builder)
    (hle : TableLe s.builder s'.builder) (hreg : s'.registers = s.registers) : x.Keeps s' := by
  refine ⟨hs, by rw [hreg]; exact hk.slots, fun slot id h => ?_, fun slot slot' id h h' => ?_⟩
  · rw [hreg] at h
    obtain ⟨t, ht⟩ := hk.declared slot id h
    exact ⟨t, hle.definition ht⟩
  · rw [hreg] at h h'
    exact hk.injective slot slot' id h h'

/-- Quiet actions on the module change no register. -/
theorem lift_quiet {α : Type} {a : Build α} {Q : α → Builder → Prop}
    (h : (x.quiet F).Ensures a s.builder Q) :
    (x.resting F).Ensures (liftM a) s fun v s' => Q v s'.builder ∧ s'.registers = s.registers := by
  refine Emit.lift_ensures h (fun hk => hk.sound) (fun _ hf => hf) fun v b hk hs hq _ => ?_
  refine ⟨hk.grow hs hq.grows.table rfl, ⟨hq.toLeads, fun _ _ h => h, [], ?_, by simp⟩,
    fun ha => ?_⟩
  · rw [List.append_nil]
    exact hq.stores
  have hw : x.word ⟨b, s.registers⟩ = x.word s :=
    word_of_memory hk hq.grows.table rfl (hq.memory ha.fits)
  unfold Launch.state
  rw [hw, hq.samples ha.fits]

/-- Actions on the module leave the slots alone. -/
theorem lift_steady {α : Type} {a : Build α} {Q : α → Builder → Prop}
    (h : (x.steady F).Ensures a s.builder Q)
    (hstores : ∀ v b, Q v b → ∃ new, b.stores = s.builder.stores ++ new ∧
      ∀ i ∈ new, ToPrimary s.registers i) :
    (x.moving F).Ensures (liftM a) s fun v s' => Q v s'.builder ∧ s'.registers = s.registers :=
  Emit.lift_ensures h (fun hk => hk.sound) (fun _ hf => hf) fun v b hk hs hl hQ =>
    ⟨hk.grow hs hl.grows.table rfl, hl, fun _ _ h => h, hstores v b hQ⟩

end Launch

end TextureLift
