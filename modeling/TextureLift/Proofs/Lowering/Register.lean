import TextureLift.Proofs.Lowering.Fetch
import TextureLift.Proofs.Lowering.Launch
import TextureLift.Proofs.Lowering.Store

/-!
# Registers of a launch

Loads and stores of registers in the run of a module from its start. Declaring the variable of a slot is
no change of the registers, a load of the variable gives the words of the slot, and a store to it
replaces them: with that, `Launch.ledger` is the ledger of a launch. What is stored for a value follows
`Operand.writeLane`, be it converted before the store or in it.
-/

namespace TextureLift.Launch

open Builder Build Discipline Environment Lowering Number

variable {x : Launch} {F : Fault → Prop} {s s' : Emitter} {slot : Slot} {id pointer : Ref}
  {ws : List UInt32}

/-! ## Slots -/

/-- A slot without a variable gets one whose contents are those of its registers. -/
theorem insert_rests (hk : x.Keeps s) (hk' : x.Keeps s') (hq : x.Quiet s.builder s'.builder)
    (hnew : s.builder.definition? id = none) (hid : s'.builder.HasVariable id .priv)
    (hnone : s'.registers.variableOf? slot = none)
    (hother : ∀ slot' id', s'.registers.variableOf? slot' = some id' → id' ≠ id) :
    (x.resting F).keeps { s' with registers := s'.registers.insert slot id } ∧
      (x.resting F).leads s' { s' with registers := s'.registers.insert slot id } := by
  obtain ⟨t, hd, -⟩ := hid
  refine ⟨⟨hk'.sound, hk'.slots, RegisterFile.forall_insert ⟨t, hd⟩ hk'.declared,
    RegisterFile.injective_insert hother hk'.injective⟩, ⟨Leads.refl _,
    fun _ _ => RegisterFile.variableOf?_insert_of_some hnone, [], by simp, by simp⟩, fun ha => ?_⟩
  -- only the places of the slot are looked up elsewhere now
  unfold Launch.state
  congr 1
  funext p
  unfold Launch.word
  rw [RegisterFile.variableOf?_insert]
  by_cases hp : p.slot = slot
  · have hfirst := ha.slots p id (by rw [RegisterFile.variableOf?_insert, if_pos hp])
    rw [if_pos hp, hp, hnone]
    show (x.contents s'.builder id).getD _ 0 = x.registers p
    rw [hk.sound.contents_of_new hk'.sound hq ha.fits hnew hd (by decide), hfirst]
  · rw [if_neg hp]

/-- The word of a place whose slot has a variable. -/
theorem word_of_variable {p : Place} (h : s.registers.variableOf? p.slot = some id) :
    x.word s p = (x.contents s.builder id).getD (p.component % 4).toNat 0 := by
  unfold Launch.word
  rw [h]

/-- A load of the variable of a slot gives the words of the slot. -/
theorem loadSlot_ensures (hF : F .idsExhausted) (hp : s.registers.variableOf? slot = some pointer) :
    (x.resting F).Ensures (liftM (load pointer)) s fun id s' => ∃ ws, x.Holds s'.builder id .f32 ws ∧
      ws.length = 4 ∧ (x.Agrees s' → (x.state s).registers.HasSlot slot ws) := by
  refine Ensures.assume fun hk => ?_
  obtain ⟨t, ht⟩ := hk.declared slot pointer hp
  refine (lift_quiet (load_ensures hF ht (by decide))).imp fun id s' _ h =>
    ⟨_, h.1, length_contents, fun _ p hslot => word_of_variable (by rw [hslot, hp])⟩

/-- A store to one variable replaces the words of one slot. -/
theorem word_store (hk : x.Keeps s) (hp : s.registers.variableOf? slot = some pointer)
    (hreg : s'.registers = s.registers)
    (hc : ∀ q, x.contents s'.builder q = if q = pointer then ws else x.contents s.builder q) :
    x.word s' = Registers.fill (x.word s) slot ws := by
  funext p
  unfold Registers.fill
  by_cases hslot : p.slot = slot
  · rw [word_of_variable (by rw [hreg, hslot, hp]), hc, if_pos rfl, if_pos hslot]
  · -- other slots have other variables
    rw [if_neg hslot]
    unfold Launch.word
    rw [hreg]
    cases hq : s.registers.variableOf? p.slot with
    | none => rfl
    | some q =>
      have hne : q ≠ pointer := by
        rintro rfl
        exact hslot (hk.injective _ _ q hq hp)
      simp only [hc, if_neg hne]

theorem storeSlot_ensures {value : Ref} (hwindow : slot.window = Window.primary)
    (hp : s.registers.variableOf? slot = some pointer) (hv : x.Holds s.builder value .f32 ws)
    (hlen : ws.length = 4) :
    (x.moving F).Ensures (liftM (Build.store pointer value)) s fun _ s' => x.Agrees s' →
      x.state s' = { x.state s with registers := (x.state s).registers.fill slot ws } := by
  refine Ensures.assume fun hk => ?_
  obtain ⟨t, ht⟩ := hk.declared slot pointer hp
  refine (lift_steady (store_ensures ht hv hlen) fun _ b h =>
    ⟨[storeInst pointer value], h.1, fun i hi => ?_⟩).imp fun _ s' _ h ha => ?_
  · rw [List.mem_singleton.1 hi]
    exact ⟨slot, pointer, hp, hwindow, rfl⟩
  obtain ⟨⟨-, hstore⟩, hreg⟩ := h
  obtain ⟨hc, hsamples⟩ := hstore ha.fits
  unfold Launch.state
  rw [word_store hk hp hreg hc, hsamples]

/-- What registers hold in a launch that agrees with the module. -/
def ledger (x : Launch) (hF : F .idsExhausted) : Ledger where
  toReckoning := x.reckoning hF
  moving := x.moving F
  resting := x.resting F
  Sees := x.Agrees
  Distinct := True
  slots _ := x.slots
  state := x.state
  moving_of_resting := Ensures.of_still
  moves_of_rests h := h.moves
  lift_quiet := lift_quiet
  holds_of_moves h hm := h.mono hm.leads
  sees_of_moves := Moves.agrees
  state_of_rests h := h.same
  variable_of_moves hm := hm.slots _ _
  slots_of_moves _ := rfl
  slots_of_moving hk := hk.slots
  slots_of_resting hk := hk.slots
  defined_of_slot hk h := by
    obtain ⟨t, ht⟩ := hk.declared _ _ h
    rw [ht]
    rfl
  variableOf_ensures hp := by
    refine (quiet_of_declaring (variableOf_declares (s := .priv) hF hp)).imp fun id b' hq h => ?_
    obtain ⟨hnew, t, ht, hdecl⟩ := h
    exact ⟨hnew, t, ht, _, hdecl, hp.mono hq.grows.table⟩
  insert_rests := insert_rests
  load_ensures := loadSlot_ensures hF
  store_ensures hwindow hp hv hlen :=
    (storeSlot_ensures hwindow hp hv hlen).imp fun _ _ _ h hs _ => h hs

/-! ## Stores of numbers -/

/-- The number that is stored for a lane: its own one, or the last. -/
def numberFor (ys : List UInt32) (lane : UInt32) : UInt32 :=
  ys.getD (min lane.toNat (ys.length - 1)) Single.zero

/-- The id holds numbers to be stored in an encoding, and they are `ys` whenever the launch agrees
with the module. -/
def GivesFor (x : Launch) (s : Emitter) (id : Ref) (k : Encoding) (ys : List UInt32) : Prop :=
  ∃ zs, x.HoldsFor s.builder id k zs ∧ zs.length = ys.length ∧ (x.Agrees s → zs = ys)

/-- Numbers that are to be stored, with the kind that they are held as. -/
theorem HoldsFor.storable {e : Environment} {b : Builder} {k : Encoding} {zs : List UInt32}
    (h : e.HoldsFor b id k zs) : ∃ kind ys, k.Storable kind ∧ e.Holds b id kind ys ∧
      ys.length = zs.length ∧ ∀ lane : Fin 4, 0 < zs.length →
        k.wordFor kind ys lane.val = k.encodeNumber (numberFor zs (.ofNat lane.val)) := by
  have hlane (lane : Fin 4) : (UInt32.ofNat lane.val).toNat = lane.val :=
    UInt32.toNat_ofNat_of_lt' (Nat.lt_trans lane.isLt (by decide))
  unfold Encoding.wordFor Encoding.storedWord numberFor
  rcases h with h | ⟨hk, h⟩
  · refine ⟨.f32, zs, .inl rfl, h, rfl, fun lane _ => ?_⟩
    rw [if_pos rfl, hlane]
    rfl
  · have hne : integerKind k.isSigned ≠ .f32 := by
      unfold integerKind
      split <;> decide
    refine ⟨_, _, .inr hk, h, List.length_map _, fun lane hpos => ?_⟩
    have hlt : min lane.val (zs.length - 1) < zs.length := by omega
    rw [if_neg hne, hlane, List.length_map]
    simp [List.getD_eq_getElem?_getD, List.getElem?_eq_getElem hlt]

/-- A store of the lanes of a mask. -/
theorem store_moves (hF : F .idsExhausted)
    (hmul : F .overflow ∨ x.slots.toNat * 4 < UInt32.size) {op : Operand} {value : Ref}
    {mask : LaneMask} {ys : List UInt32}
    (hadd : F .overflow ∨ ∀ lane ∈ mask.lanes, op.InWords (.ofNat lane.val))
    (hv : x.GivesFor s value op.encoding ys) (hpos : 0 < ys.length) (hshort : ys.length ≤ 4) :
    (x.moving F).Ensures (Emit.store op value mask) s fun _ s' => x.Agrees s' →
      x.state s' = { x.state s with
        registers := mask.lanes.foldl (fun r lane =>
          op.writeLane x.slots r (.ofNat lane.val) (numberFor ys (.ofNat lane.val)))
          (x.state s).registers } := by
  obtain ⟨zs, hzs, hlen, heq⟩ := hv
  obtain ⟨kind, words, hstorable, hwords, hlen', hword⟩ := HoldsFor.storable hzs
  refine (Ledger.storeMask_ensures (L := x.ledger hF) hstorable hmul hadd hwords (by omega)
    (show words.length ≤ 8 by omega)).imp fun _ s' m h ha => ?_
  rw [← heq (m.agrees ha)]
  simp only [Operand.writeLane_eq, ← hword _ (by omega)]
  exact h ha trivial

end TextureLift.Launch
