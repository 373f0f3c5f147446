import TextureLift.Proofs.Lowering.Conversion
import TextureLift.Proofs.Lowering.Foresight
import TextureLift.Proofs.Lowering.Slots

/-!
# Registers in a passage

The registers of a machine are the lanes of the variables that the slots of a module have
(`Machine.wordsIn`). The code of a load reads them, from any state of the machine and wherever it
stands in a module:

    loadWindow op mask window  appends code that gives its id the lanes
      op.read (m.wordsIn t) window mask.lanes

and writes nothing. A load that returns an id passed the check of its lanes, so all of them can be read.
-/

namespace TextureLift

open Builder Build Discipline Lowering Number

/-! ## Registers of a machine -/

namespace Emitter

variable {s s' s'' : Emitter}

/-- Every slot has a private variable of four floats. -/
def Backed (s : Emitter) : Prop :=
  ∀ slot id, s.registers.variableOf? slot = some id → s.builder.HasVariable id .priv

/-- No two slots share a variable. -/
def Injective (s : Emitter) : Prop :=
  ∀ slot slot' id, s.registers.variableOf? slot = some id →
    s.registers.variableOf? slot' = some id → slot = slot'

/-- What the first module has the second has too, and slots have the same variables. -/
structure Within (s s' : Emitter) : Prop where
  table : TableLe s.builder s'.builder
  slots : ∀ slot id, s.registers.variableOf? slot = some id → s'.registers.variableOf? slot = some id
  sized : s'.registers.slotsPerBank = s.registers.slotsPerBank

theorem Within.refl (s : Emitter) : Within s s :=
  ⟨TableLe.refl _, fun _ _ h => h, rfl⟩

theorem Within.trans (h : Within s s') (h' : Within s' s'') : Within s s'' :=
  ⟨h.table.trans h'.table, fun slot id hid => h'.slots slot id (h.slots slot id hid),
    h'.sized.trans h.sized⟩

end Emitter

namespace Machine

/-- The words of all places: the lanes of the variables of slots. -/
def wordsIn (m : Machine) (t : Emitter) : Registers := fun p =>
  match t.registers.variableOf? p.slot with
  | some id => (m.read t.builder id).bits.getD (p.component % 4).toNat 0
  | none => 0

/-- Constants have their own values, and private variables hold four lanes, of whatever kind. -/
structure Ready (m : Machine) (b : Builder) : Prop where
  constants : m.Unshadowed b
  privates : ∀ id, b.HasVariable id .priv → ∃ k ws, m.read b id = .lanes k ws ∧ ws.length = 4

theorem wordsIn_of_variable {m : Machine} {t : Emitter} {p : Place} {id : Ref}
    (h : t.registers.variableOf? p.slot = some id) :
    m.wordsIn t p = (m.read t.builder id).bits.getD (p.component % 4).toNat 0 := by
  unfold wordsIn
  rw [h]

theorem read_of_memory {m m' : Machine} (h : m'.memory = m.memory) : m'.read = m.read := by
  unfold read contents?
  rw [h]

/-- A machine in whose memory are vectors of four lanes only is ready. -/
theorem ready_of_memory {m : Machine} {b : Builder} (hm : m.Unshadowed b)
    (hlanes : ∀ (word : UInt32) v, m.memory[word]? = some v → ∃ k ws, v = .lanes k ws ∧ ws.length = 4) :
    m.Ready b := by
  refine ⟨hm, fun id hid => ?_⟩
  unfold read contents?
  cases hv : m.memory[id.word]? with
  | some v => exact hlanes _ v hv
  | none =>
    obtain ⟨t, hd, ht⟩ := hid
    exact ⟨_, _, Environment.initialValue_of_type hd ht (by decide), rfl⟩

end Machine

/-- What a load reads is stored, in the component whose index is the sum of numbers. -/
theorem RegisterFile.stored_of_canLoad {r : RegisterFile} {op : Operand} {mask : LaneMask}
    (h : r.canLoad op mask = .ok true) (hb : op.bank ≠ .immediate) {lane : Fin 4}
    (hlane : lane ∈ mask.lanes) {element : UInt32}
    (he : (op.swizzle.channel lane).element? = some element) :
    op.InWords element ∧ op.hasStorage r.slotsPerBank element = true := by
  rw [canLoad_eq] at h
  split at h
  · cases h
  · have hin := laneInRange_of_eachInRange h hlane
    unfold laneInRange at hin
    rw [if_neg hb, he] at hin
    obtain ⟨component, hc, hin⟩ := exists_of_bind hin
    refine ⟨?_, (storage_of_inRange hc hin).symm⟩
    by_contra hw
    rw [componentOf_of_not_inWords hw] at hc
    cases hc

namespace Passage

variable {x : Passage} {F : Fault → Prop} {s s' s'' : Emitter} {id : Ref} {k : ScalarKind}
  {bits : List UInt32}

/-! ## Actions on registers -/

/-- The module, its slots and the machine are in order. -/
structure Tends (x : Passage) (s : Emitter) : Prop where
  keeps : x.Keeps s.builder
  backed : s.Backed
  ready : x.Covers s.builder → (x.after s.builder).Ready x.whole.builder

/-- The module grew, slots kept their variables and share none. -/
structure Moves (x : Passage) (s s' : Emitter) : Prop where
  leads : x.Leads s.builder s'.builder
  within : s.Within s'
  injective : s.Injective → s'.Injective

theorem Moves.refl (s : Emitter) : x.Moves s s :=
  ⟨Leads.refl _, .refl s, id⟩

theorem Moves.trans (h : x.Moves s s') (h' : x.Moves s' s'') : x.Moves s s'' :=
  ⟨h.leads.trans h'.leads, h.within.trans h'.within, h'.injective ∘ h.injective⟩

theorem Moves.covers (h : x.Moves s s') (hc : x.Covers s'.builder) : x.Covers s.builder :=
  h.leads.covers hc

/-- Actions that keep module, slots and machine in order. -/
def moving (x : Passage) (F : Fault → Prop) : Discipline Emitter where
  keeps := x.Tends
  leads := x.Moves
  faults := F
  refl := Moves.refl
  trans := Moves.trans

/-- Actions that also write nothing. -/
def resting (x : Passage) (F : Fault → Prop) : Discipline Emitter :=
  (x.moving F).still (fun s => x.Covers s.builder) (fun s => (x.after s.builder).memory)
    Moves.covers

/-- Machines with the same memory and constants are ready alike. -/
theorem Tends.grow (hs : x.Tends s) (hk : x.Keeps s'.builder) (hb : s'.Backed)
    (hle : TableLe s.builder s'.builder)
    (hm : x.Covers s'.builder → (x.after s'.builder).memory = (x.after s.builder).memory) :
    x.Tends s' := by
  refine ⟨hk, hb, fun hc => ⟨(hk.runs hc).constants, ?_⟩⟩
  rw [Machine.read_of_memory (hm hc)]
  exact (hs.ready (hle.trans hc)).privates

/-- Computations are resting actions. -/
theorem lift_quiet {α : Type} {a : Build α} {Q : α → Builder → Prop}
    (h : (x.quiet F).Ensures a s.builder Q) :
    (x.resting F).Ensures (liftM a) s fun v s' => Q v s'.builder ∧ s'.registers = s.registers := by
  refine Emit.lift_ensures h (fun hs => hs.keeps) (fun _ hf => hf) fun v b hs hk hq _ => ?_
  exact ⟨hs.grow hk (fun slot id hid => (hs.backed slot id hid).mono hq.table) hq.table hq.memory,
    ⟨hq.toLeads, ⟨hq.table, fun _ _ h => h, rfl⟩, id⟩, hq.memory⟩

/-! ## Contents of registers -/

/-- The registers after the code so far. -/
def words (x : Passage) (s : Emitter) : Registers :=
  (x.after s.builder).wordsIn x.whole

/-- The registers and requests after the code so far. -/
def state (x : Passage) (s : Emitter) : ShaderState where
  registers := x.words s
  samples := (x.after s.builder).samples.toList

/-- The lanes of a variable, four of them. -/
def contents (x : Passage) (b : Builder) (pointer : Ref) : List UInt32 :=
  (List.range 4).map fun lane => ((x.after b).read x.whole.builder pointer).bits.getD lane 0

theorem length_contents {b : Builder} {pointer : Ref} : (x.contents b pointer).length = 4 := by
  unfold contents
  rw [List.length_map, List.length_range]

section Slots

variable {slot : Slot} {pointer : Ref} {ws : List UInt32}

/-- The variable of a slot holds its four lanes. -/
theorem Tends.read (hs : x.Tends s) (hp : s.registers.variableOf? slot = some pointer)
    (hc : x.Covers s.builder) :
    ((x.after s.builder).read x.whole.builder pointer).bits = x.contents s.builder pointer := by
  obtain ⟨k, ws, hr, hlen⟩ := (hs.ready hc).privates pointer ((hs.backed slot pointer hp).mono hc)
  unfold contents
  rw [hr]
  exact (Environment.four_lanes hlen).symm

theorem hasSlot_contents (h : x.whole.registers.variableOf? slot = some pointer) :
    (x.words s).HasSlot slot (x.contents s.builder pointer) := by
  intro p hslot
  have hlane : (x.contents s.builder pointer)[(p.component % 4).toNat]? =
      some (((x.after s.builder).read x.whole.builder pointer).bits.getD (p.component % 4).toNat 0) := by
    unfold contents
    rw [List.getElem?_map, List.getElem?_range p.lane_lt]
    rfl
  unfold words
  rw [Machine.wordsIn_of_variable (by rw [hslot, h]), List.getD_eq_getElem?_getD (l := x.contents _ _),
    hlane]
  rfl

/-- A variable that was just declared becomes that of a slot. -/
theorem insert_rests (hs : x.Tends s) (hid : s.builder.HasVariable id .priv)
    (hnone : s.registers.variableOf? slot = none)
    (hother : ∀ slot' id', s.registers.variableOf? slot' = some id' → id' ≠ id) :
    (x.resting F).keeps { s with registers := s.registers.insert slot id } ∧
      (x.resting F).leads s { s with registers := s.registers.insert slot id } :=
  ⟨hs.grow hs.keeps (RegisterFile.forall_insert hid hs.backed) (TableLe.refl _) fun _ => rfl,
    ⟨Leads.refl _, ⟨TableLe.refl _, fun _ _ => RegisterFile.variableOf?_insert_of_some hnone, rfl⟩,
      fun hinj => RegisterFile.injective_insert hother hinj⟩, fun _ => rfl⟩

/-- A load of the variable of a slot gives the words of the slot. -/
theorem loadSlot_ensures (hF : F .idsExhausted) (hp : s.registers.variableOf? slot = some pointer) :
    (x.resting F).Ensures (liftM (load pointer)) s fun id s' => ∃ ws, x.Bears s'.builder id .f32 ws ∧
      ws.length = 4 ∧ (s'.Within x.whole → (x.words s).HasSlot slot ws) := by
  refine Ensures.assume fun hs => ?_
  obtain ⟨t, hd, p, ht, hl⟩ := hs.backed slot pointer hp
  rw [if_neg (by decide)] at hl
  refine (lift_quiet ((load_step hF (typeOf?_eq_some.2 ⟨_, hd, rfl⟩) ht).imp
    fun id b' q h => And.intro q h)).imp fun id s' r h => ?_
  obtain ⟨⟨q, htype, hvalue⟩, -⟩ := h
  refine ⟨x.contents s.builder pointer, ⟨⟨p, htype, ?_⟩, fun hc => ⟨_, hvalue hc, ?_⟩⟩, length_contents,
    fun hw => hasSlot_contents (hw.slots slot pointer (r.moves.within.slots slot pointer hp))⟩
  · rw [length_contents]
    exact hl.lanes.mono q.table
  · exact hs.read hp (q.toLeads.covers hc)

/-- A store to one variable replaces the words of one slot. -/
theorem words_store (hinj : x.whole.Injective)
    (hp : x.whole.registers.variableOf? slot = some pointer)
    (hread : ∀ q, (x.after s'.builder).read x.whole.builder q =
      if pointer = q then .lanes .f32 ws else (x.after s.builder).read x.whole.builder q) :
    x.words s' = (x.words s).fill slot ws := by
  funext p
  unfold Registers.fill
  by_cases hslot : p.slot = slot
  · rw [words, Machine.wordsIn_of_variable (by rw [hslot, hp]), hread, if_pos rfl, if_pos hslot]
    rfl
  · -- other slots have other variables
    rw [if_neg hslot]
    unfold words Machine.wordsIn
    cases hq : x.whole.registers.variableOf? p.slot with
    | none => rfl
    | some q =>
      have hne : pointer ≠ q := by
        rintro rfl
        exact hslot (hinj _ _ pointer hq hp)
      simp only [hread, if_neg hne]

/-- The variable of a slot holds four lanes again after a store. -/
theorem storeSlot_ensures {value : Ref} (hp : s.registers.variableOf? slot = some pointer)
    (hv : x.Holds s.builder value .f32 ws) (hlen : ws.length = 4) :
    (x.moving F).Ensures (liftM (Build.store pointer value)) s fun _ s' =>
      s'.Within x.whole → x.whole.Injective →
        x.state s' = { x.state s with registers := (x.words s).fill slot ws } := by
  refine Ensures.imp (D := x.moving F) (Emit.lift_ensures (store_ensures pointer hv)
    (fun hs => hs.keeps) (fun _ hf => hf) fun _ b' hs hk hl hread => ?_) fun _ s' m h hw hinj => ?_
  · refine ⟨⟨hk, fun slot id hid => (hs.backed slot id hid).mono hl.table, fun hc =>
      ⟨(hk.runs hc).constants, fun id hid => ?_⟩⟩, hl, ⟨hl.table, fun _ _ h => h, rfl⟩, id⟩
    rw [hread (hl.covers hc)]
    split
    · exact ⟨_, _, rfl, hlen⟩
    · exact (hs.ready (hl.covers hc)).privates id hid
  · have hw₀ := m.within.trans hw
    unfold state
    rw [words_store hinj (hw₀.slots slot pointer hp) (h.1 hw₀.table), m.leads.samples hw.table]

end Slots

/-- A new private variable of four floats. -/
theorem variableOf_ensures (hF : F .idsExhausted) {b : Builder} {p : Ref} (hp : b.LaneType p .f32 4) :
    (x.quiet F).Ensures (variableOf .priv p) b fun id b' =>
      b.definition? id = none ∧ b'.HasVariable id .priv := by
  refine (type_ensures hF _).bind fun t b₁ q₁ ht => ?_
  refine (fresh_ensures hF _).imp fun id b' q h =>
    ⟨q₁.table.none_of_none h.1, t, h.2, p, q.table.typeDecl ht, ?_⟩
  rw [if_neg (by decide)]
  exact hp.mono (q₁.trans q).table

/-- What registers hold in a passage of a module that has their slots. -/
def ledger (x : Passage) (hF : F .idsExhausted) : Ledger where
  toReckoning := x.reckoning hF
  moving := x.moving F
  resting := x.resting F
  Sees s := s.Within x.whole
  Distinct := x.whole.Injective
  slots s := s.registers.slotsPerBank
  state := x.state
  moving_of_resting := Ensures.of_still
  moves_of_rests h := h.moves
  lift_quiet := lift_quiet
  holds_of_moves h hm := h.mono hm.leads
  sees_of_moves hm := hm.within.trans
  state_of_rests h hw := by
    unfold state words Machine.wordsIn
    rw [Machine.read_of_memory (h.same hw.table), h.moves.leads.samples hw.table]
  variable_of_moves hm := hm.within.slots _ _
  slots_of_moves hm := hm.within.sized
  slots_of_moving _ := rfl
  slots_of_resting _ := rfl
  defined_of_slot hs h := by
    obtain ⟨t, ht, -⟩ := hs.backed _ _ h
    rw [ht]
    rfl
  variableOf_ensures := variableOf_ensures hF
  insert_rests _ hs _ _ := insert_rests hs
  load_ensures := loadSlot_ensures hF
  store_ensures _ hp hv hlen := storeSlot_ensures hp hv hlen

/-- The lanes that an id is given in a passage of a module that has its slots. -/
theorem value_of_gives {hF : F .idsExhausted} (h : (x.ledger hF).Gives s id k bits)
    (hw : s.Within x.whole) :
    (x.after s.builder).value? x.whole.builder id = some (.lanes k bits) := by
  obtain ⟨lanes, hl, -, heq⟩ := h
  rw [Holds.value (x := x) hl hw.table, heq hw]

/-! ## From the end of a module -/

theorem tends_behind {whole : Emitter} {texels : Texels} {m : Machine}
    (hsize : s.builder.definitions.size < UInt32.size) (hb : s.Backed) (hm : m.Ready whole.builder) :
    (behind s.builder whole texels m).Tends s := by
  refine ⟨keeps_behind hsize hm.constants, hb, fun _ => ?_⟩
  rw [after_behind]
  exact hm

theorem words_behind {whole : Emitter} {texels : Texels} {m : Machine} :
    (behind s.builder whole texels m).words s = m.wordsIn whole := by
  unfold words
  rw [after_behind]
  rfl

theorem tends_blank (hsize : s.builder.definitions.size < UInt32.size) (hb : s.Backed) :
    (blank s.builder).Tends s :=
  tends_behind hsize hb (Machine.ready_of_memory (fun _ _ _ _ => Std.ExtTreeMap.getElem?_empty)
    fun _ _ h => by rw [Std.ExtTreeMap.getElem?_empty] at h; cases h)

end Passage

/-- A load that returns an id gives it the lanes of the mask, each as its channel says, and writes
nothing. It does so from any state of the machine and wherever its code stands. -/
theorem loadWindow_reads {op : Operand} {mask : LaneMask} {window : UInt8} {s s' : Emitter} {id : Ref}
    (hsize : s.builder.definitions.size < UInt32.size) (hb : s.Backed)
    (h : (Emit.loadWindow op mask window).run s = .ok (some id, s')) :
    s'.builder.isFloat id = true ∧ (s'.builder.components id).toNat = mask.count ∧
      (mask.count = 1 → ∃ t w, s'.builder.typeOf? id = some t ∧
        s'.builder.typeDecl? t = some (.float w)) ∧
      (∀ lane ∈ mask.lanes, ∀ element, (op.swizzle.channel lane).element? = some element →
        op.bank ≠ .immediate → op.hasStorage s.registers.slotsPerBank element = true ∧
          (op.componentAt element).toNat =
            op.index.toNat + (element / op.encoding.lanesPerComponent).toNat) ∧
      s.Within s' ∧ s'.Backed ∧ (s.Injective → s'.Injective) ∧
      ∃ code, s'.builder.body.toList = s.builder.body.toList ++ code ∧
        ∀ (t : Emitter) (texels : Texels) (m : Machine), s'.Within t → m.Ready t.builder →
          ∃ m', m.steps t.builder texels code = (m', none) ∧
            m'.value? t.builder id =
              some (.lanes .f32 (op.read (m.wordsIn t) window mask.lanes)) ∧
            m'.memory = m.memory ∧ m'.samples = m.samples := by
  have hcan := (Emit.Foretold.loadWindow op mask window).found h
  have hreadable := (RegisterFile.canLoad_result hcan).symm
  rw [Option.isSome_some, Bool.and_eq_true, Bool.not_eq_true', LaneMask.isEmpty_eq,
    List.isEmpty_eq_false_iff] at hreadable
  have hload (x : Passage) : (x.resting fun _ => True).Yields (Emit.loadWindow op mask window) s
      fun id s' => (x.ledger (F := fun _ => True) trivial).Gives s' id .f32
        (op.read (x.words s) window mask.lanes) :=
    Ledger.loadWindow_yields (L := x.ledger (F := fun _ => True) trivial) (.inl trivial)
      hreadable.1 hreadable.2
  -- the code is the same for all machines, so it may be taken from a passage without a run
  obtain ⟨htends, hrests, v, hv, hgives⟩ := (hload _).result (Passage.tends_blank hsize hb) h
  obtain rfl := Option.some.inj hv
  have htyped := hgives.carries
  rw [Operand.read, List.length_map] at htyped
  obtain ⟨code, hcode⟩ := hrests.moves.leads.body
  refine ⟨htyped.isFloat, htyped.components, fun h1 => Carries.scalar (h1 ▸ htyped),
    fun lane hlane element he hbank => ?_, hrests.moves.within, htends.backed,
    hrests.moves.injective, code, hcode,
    fun t texels m ht hm => ?_⟩
  · obtain ⟨hwords, hstored⟩ := RegisterFile.stored_of_canLoad hcan hbank hlane he
    exact ⟨hstored, hwords.toNat_componentAt⟩
  · obtain ⟨htends', hrests', v, hv, hgives'⟩ :=
      (hload (.behind s.builder t texels m)).result (Passage.tends_behind hsize hb hm) h
    obtain rfl := Option.some.inj hv
    refine ⟨_, Passage.steps_behind htends'.keeps hcode ht.table, ?_, ?_, ?_⟩
    · rw [Passage.words_behind] at hgives'
      exact Passage.value_of_gives hgives' ht
    · exact (hrests'.same ht.table).trans (congrArg Machine.memory Passage.after_behind)
    · rw [hrests'.moves.leads.samples ht.table, Passage.after_behind]

/-- A module with one variable, for the first components of the first bank. -/
def oneSlot : Emitter where
  builder.definitions := #[.plain, .type (.float 32), .type (.vector ⟨1⟩ 4),
    .type (.pointer .priv ⟨2⟩), .var ⟨3⟩ .priv]
  registers := ⟨2, [(⟨.temp, Window.primary, 0⟩, ⟨4⟩)]⟩

/-- The machine after four words were written there, as integers. -/
def oneSlotWritten : Machine where
  memory := (∅ : WordMap Value).insert 4 (.lanes .u32 [1, 0xFF000280, 3, 4])

theorem oneSlotWritten_lanes (word : UInt32) (v : Value)
    (h : oneSlotWritten.memory[word]? = some v) : ∃ k ws, v = .lanes k ws ∧ ws.length = 4 := by
  unfold oneSlotWritten at h
  rw [Std.ExtTreeMap.getElem?_insert, Std.ExtTreeMap.getElem?_empty] at h
  split at h
  · exact ⟨_, _, (Option.some.inj h).symm, rfl⟩
  · cases h

theorem oneSlotWritten_read (b : Builder) :
    oneSlotWritten.read b ⟨4⟩ = .lanes .u32 [1, 0xFF000280, 3, 4] := by
  unfold Machine.read Machine.contents? oneSlotWritten
  rw [Std.ExtTreeMap.getElem?_insert_self]
  rfl

theorem oneSlot_variable {slot : Slot} {id : Ref} (h : oneSlot.registers.variableOf? slot = some id) :
    slot = ⟨.temp, Window.primary, 0⟩ ∧ id = ⟨4⟩ := by
  change List.lookup slot [(⟨.temp, Window.primary, 0⟩, ⟨4⟩)] = some id at h
  rw [List.lookup_cons] at h
  split at h
  · exact ⟨eq_of_beq ‹_›, (Option.some.inj h).symm⟩
  · cases h

theorem oneSlot_backed : oneSlot.Backed := by
  intro slot id h
  rw [(oneSlot_variable h).2]
  exact ⟨⟨3⟩, rfl, ⟨2⟩, rfl, .inr ⟨by decide, ⟨1⟩, rfl, rfl⟩⟩

theorem loadWindow_reads_bytes :
    oneSlot.builder.definitions.size < UInt32.size ∧ oneSlot.Backed ∧
      ∃ id s' code m', (Emit.loadWindow { index := 1, encoding := .s8, swizzle := ⟨.w, .one, .y, .x⟩ }
          ⟨0b0111⟩ Window.primary).run oneSlot = .ok (some id, s') ∧
        (s'.builder.components id).toNat = 3 ∧ s'.builder.body.toList = code ∧
        oneSlotWritten.steps s'.builder (fun _ _ => ⟨0, 0, 0, 0⟩) code = (m', none) ∧
        m'.value? s'.builder id =
          some (.lanes .f32 [0xBF800000, 0x3F800000, 0x40000000]) := by
  have hsize : oneSlot.builder.definitions.size < UInt32.size := by decide
  refine ⟨hsize, oneSlot_backed, ?_⟩
  have hrun : ((Emit.loadWindow { index := 1, encoding := .s8, swizzle := ⟨.w, .one, .y, .x⟩ }
      ⟨0b0111⟩ Window.primary).run oneSlot).toOption.map (fun r => r.1.isSome) = some true := by
    decide +kernel
  obtain ⟨⟨o, s'⟩, hrun, ho⟩ := exists_of_toOption_map hrun
  obtain ⟨id, rfl⟩ := Option.isSome_iff_exists.1 ho
  obtain ⟨-, hcount, -, -, hwithin, -, -, code, hcode, hread⟩ :=
    loadWindow_reads hsize oneSlot_backed hrun
  have hready : oneSlotWritten.Ready s'.builder :=
    Machine.ready_of_memory (fun _ _ _ _ => Std.ExtTreeMap.getElem?_empty) oneSlotWritten_lanes
  obtain ⟨m', hsteps, hvalue, -⟩ := hread s' (fun _ _ => ⟨0, 0, 0, 0⟩) oneSlotWritten (.refl s') hready
  refine ⟨id, s', code, m', hrun, hcount, hcode, hsteps, ?_⟩
  have hword : oneSlotWritten.wordsIn s' ⟨.temp, Window.primary, 1⟩ = 0xFF000280 := by
    rw [Machine.wordsIn_of_variable (hwithin.slots _ ⟨4⟩ (by decide)), oneSlotWritten_read]
    rfl
  rw [hvalue]
  show some (Value.lanes .f32
    [Encoding.s8.decodeLane (oneSlotWritten.wordsIn s' ⟨.temp, Window.primary, 1⟩) 3, Single.one,
      Encoding.s8.decodeLane (oneSlotWritten.wordsIn s' ⟨.temp, Window.primary, 1⟩) 1]) = _
  rw [hword]
  decide

end TextureLift
