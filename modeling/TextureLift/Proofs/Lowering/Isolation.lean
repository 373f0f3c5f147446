import TextureLift.Proofs.Lowering.Alternate
import TextureLift.Proofs.Lowering.Correctness

/-!
# The alternate window

The alternate window holds second gradients of samples with three dimensions and has no other part in
what a module does. Two runs from memories that differ in its variables alone go the same way: they
make as many requests, which differ in such gradients at most, and they leave the same memory. No run
changes the variables of the window.

The variables have to hold four lanes at least, of any kind, or nothing: `extract` refuses lanes that
are not there, and `shade_alternate_narrow` is a run that stops so. Nothing is asked of the others.

A run with typed memory that agrees on the window in four lanes goes alongside each run. It does not
stop, so that what is loaded from the window is known to be there, and its second gradients are the
program's.
-/

namespace TextureLift

open Builder Lowering

/-! ## The code of a program -/

theorem Launch.Begins.parted {x : Launch} {samplers : List SamplerDesc} {c : Context}
    (h : x.Begins samplers c) : c.Parted ∧ c.Requested [] := by
  have hwf := h.ready.keeps.sound.wellFormed
  have hframe := h.opens.isFrame
  -- the body has no code yet
  have hcode {i : Inst} (hi : i ∈ c.builder.body.toList) {P : Opcode → Prop} (hP : P i.opcode)
      (hno : ∀ op : Opcode, op.isFrame = true → ¬ P op) : False :=
    hno i.opcode (hframe i hi) hP
  have hparted : c.builder.Parted c.registers.IsAlternate := by
    refine ⟨hwf.size_lt, fun id ⟨slot, hid, _⟩ => h.ready.keeps.declared slot id hid,
      fun id hid => (hwf.imported id hid).1, fun i hi hop => ?_, fun i hi hop => ?_,
      fun i hi hop => ?_, fun i hi hop => ?_⟩
    · exact (hcode (P := fun op => op.yields = true) hi hop (by rintro op; cases op <;> decide)).elim
    · exact (hcode (P := fun op => op = .load) hi hop (by rintro op; cases op <;> decide)).elim
    · exact (hcode (P := fun op => op.isPure = true) hi hop (by rintro op; cases op <;> decide)).elim
    · exact (hcode (P := fun op => op = .store) hi hop (by rintro op; cases op <;> decide)).elim
  refine ⟨⟨⟨hparted, h.ready.keeps.declared, h.ready.keeps.injective⟩, fun index info hi => ?_,
    fun location id hi => ?_⟩, ?_⟩
  · obtain ⟨⟨t, ht⟩, -⟩ := h.ready.samplers index info hi
    exact hparted.clear_of_definition ht (by simp) (by simp) _
  · obtain ⟨t, ht⟩ := h.ready.inputs location id hi
    exact hparted.clear_of_definition ht (by simp) (by simp) _
  · have hnone : samplesOf c.builder.body.toList = [] := List.filter_eq_nil_iff.2 fun i hi hop =>
      hcode (P := fun op => op.isImageSample = true) hi hop (by rintro op; cases op <;> decide)
    unfold Context.Requested
    rw [hnone]
    exact .nil

/-- The windows of a program are kept apart, and its requests are those of its fetches. -/
theorem Lowering.shade_requested {settings : LiftSettings} {p : Program} {stats : Stats} {c : Context}
    (hp : p.defect? = none) (h : shade settings p = .ok (.ok stats, c)) :
    c.Parted ∧ c.Requested (p.fetches settings.registerSlots) := by
  obtain ⟨c₀, hstart, h⟩ := exists_of_bind h
  have hbegins : (Launch.blank settings.registerSlots).Begins p.samplers c₀ :=
    Launch.start_begins rfl hstart
  obtain ⟨hparted, hrequested⟩ := hbegins.parted
  have hslots : c₀.registers.slotsPerBank = settings.registerSlots := hbegins.ready.keeps.slots
  obtain ⟨hparted', -, hfetches⟩ := (Context.lowerProgram_parts
    (Program.tabulates_of_lists hp hbegins.lists) hrequested).result hparted h
  rw [hslots] at hfetches
  exact ⟨hparted', hfetches ⟨stats, rfl⟩⟩

/-- The end of the function samples nothing. -/
theorem Context.samplesOf_close (c : Context) :
    samplesOf c.close.body.toList = samplesOf c.builder.body.toList := by
  rw [c.body_close, samplesOf_append]
  exact List.append_nil _

/-- The positions of the requests with gradients of three dimensions. -/
def Fetch.SpatialAt (fs : List Fetch) (n : Nat) : Prop :=
  ∃ f, fs[n]? = some f ∧ f.isSpatial = true

namespace Launch

variable {x : Launch} {p : Program} {c : Context} {r : Except Failure Stats}

/-- Stores go to the primary window. -/
theorem Ends.store_primary (h : x.Ends p r c) {i : Inst} (hi : i ∈ c.builder.body.toList)
    (hop : i.opcode = .store) {pointer : Ref} (hptr : i.operandRef? 0 = some pointer) :
    ¬ c.registers.IsAlternate pointer := by
  obtain ⟨c₀, hbegins, hshades⟩ := h.shades
  obtain ⟨new, hnew, hprimary⟩ := hshades.moves.stores
  have hnone : c₀.builder.stores = [] := List.filter_eq_nil_iff.2 fun j hj hop' => by
    have hframe := hbegins.opens.isFrame j hj
    rw [of_decide_eq_true hop'] at hframe
    cases hframe
  have hmem : i ∈ new := by
    have hstores : i ∈ c.builder.stores := List.mem_filter.2 ⟨hi, decide_eq_true hop⟩
    rw [hnew, hnone] at hstores
    exact hstores
  obtain ⟨slot, id, hid, hw, hptr'⟩ := hprimary i hmem
  obtain rfl := Option.some.inj (hptr.symm.trans hptr')
  rintro ⟨slot', hid', hw'⟩
  rw [h.ready.keeps.injective slot slot' pointer hid hid', hw'] at hw
  cases hw

/-- The alternate window separates the code of a program. -/
theorem Ends.separated (h : x.Ends p r c) (hparted : c.Parted) {fs : List Fetch}
    (hrequested : c.Requested fs) :
    Separated c.registers.IsAlternate (Fetch.SpatialAt fs) c.close.body.toList := by
  rw [c.body_close]
  have hsided {side : Side} {id : Ref} (hid : c.toEmitter.Sided side id) :
      side.Clear c.registers.IsAlternate (c.builder.body.toList ++
        [{ opcode := .ret }, { opcode := .functionEnd }]) id :=
    fun hreached => hid.clear (reached_of_append (by simp) hreached)
  have hmem {i : Inst} {P : Opcode → Prop} (hP : P i.opcode)
      (hi : i ∈ c.builder.body.toList ++ [{ opcode := .ret }, { opcode := .functionEnd }])
      (hret : ¬ P .ret) (hend : ¬ P .functionEnd) : i ∈ c.builder.body.toList := by
    simp only [List.mem_append, List.mem_cons, List.not_mem_nil, or_false] at hi
    rcases hi with hi | rfl | rfl
    · exact hi
    · exact absurd hP hret
    · exact absurd hP hend
  have hclear {side : Side} {id : Ref} (hid : c.toEmitter.Clear side id) :
      side.Settled c.registers.IsAlternate (c.builder.body.toList ++
        [{ opcode := .ret }, { opcode := .functionEnd }]) id :=
    ⟨hsided hid.toSided, fun ⟨_, hi, hloads, hr⟩ => hid.derived
      ⟨_, hmem (P := fun op => op = .load) hloads.1 hi (by decide) (by decide), hloads, hr⟩⟩
  refine ⟨fun i hi => ?_, fun i hi hop => ?_, fun i hi hop => ⟨fun pointer hptr => ?_, fun w hw => ?_⟩,
    fun n i hi => ?_⟩
  · obtain ⟨opening, code, hopens, hbody, hcode⟩ := h.body
    simp only [List.mem_append, List.mem_cons, List.not_mem_nil, or_false, hbody] at hi
    rcases hi with (hi | hi) | rfl | rfl
    · exact .inl (hopens.isFrame i hi)
    · exact .inr (hcode i hi).1
    · exact .inl rfl
    · exact .inl rfl
  · have hi := hmem (P := fun op => op.isPure = true) hop hi (by decide) (by decide)
    exact (hparted.emitter.builder.computations i hi hop).imp (·.imp fun _ => hsided)
      fun ⟨side, hside⟩ => ⟨side, fun w hw => hclear (hside w hw)⟩
  · exact h.store_primary (hmem (P := fun op => op = .store) hop hi (by decide) (by decide)) hop hptr
  · exact (hclear (hparted.emitter.builder.stores i
      (hmem (P := fun op => op = .store) hop hi (by decide) (by decide)) hop w hw)).clear
  · have hsamples := c.samplesOf_close
    rw [c.body_close] at hsamples
    rw [hsamples] at hi
    obtain ⟨f, hf, hsampled⟩ := getElem?_of_forall₂ hrequested hi
    have hfree : Fetch.SpatialAt fs n ↔ f.isSpatial = true := by
      refine ⟨fun ⟨f', hf', hs⟩ => ?_, fun hs => ⟨f, hf, hs⟩⟩
      rw [hf] at hf'
      rw [Option.some.inj hf']
      exact hs
    rw [hfree]
    exact hsampled.1.imp fun _ _ hid => hclear hid

end Launch

/-! ## Memory of one window -/

/-- The first four lanes, as floats. -/
def Value.floatFront (v : Value) : Value :=
  .lanes .f32 v.front

theorem Value.front_floatFront (v : Value) : v.floatFront.front = v.front := by
  unfold floatFront front bits
  rw [List.take_take]
  rfl

/-- A component of a slot is one of its first four lanes. -/
theorem Value.getD_front (v : Value) (component : UInt32) :
    v.front.getD (component % 4).toNat 0 = v.bits.getD (component % 4).toNat 0 := by
  have hlane : (component % 4).toNat < 4 := by
    rw [UInt32.toNat_mod]
    exact Nat.mod_lt _ (by decide)
  rw [List.getD_eq_getElem?_getD, List.getD_eq_getElem?_getD, front, List.getElem?_take_of_lt hlane]

/-- The memory with the variables of a set alone, each with four floats. -/
theorem exists_restriction (memory : WordMap Value) (V : Ref → Prop) : ∃ part : WordMap Value,
    (∀ id, V id → part[id.word]? = (memory[id.word]?).map Value.floatFront) ∧
      ∀ id, ¬ V id → part[id.word]? = none := by
  classical
  let cells := (memory.toList.filter fun cell => V ⟨cell.1⟩).map fun cell => (cell.1, cell.2.floatFront)
  have hcells {id : Ref} {v : Value} : (id.word, v) ∈ cells ↔
      V id ∧ ∃ v', memory[id.word]? = some v' ∧ v'.floatFront = v := by
    simp only [cells, List.mem_map, List.mem_filter, Std.ExtTreeMap.mem_toList_iff_getElem?_eq_some,
      decide_eq_true_iff, Prod.exists, Prod.mk.injEq]
    constructor
    · rintro ⟨w, v', ⟨hv', hV⟩, rfl, rfl⟩
      exact ⟨hV, v', hv', rfl⟩
    · rintro ⟨hV, v', hv', rfl⟩
      exact ⟨id.word, v', ⟨hv', hV⟩, rfl, rfl⟩
  refine ⟨memoryOf cells, fun id hid => ?_, fun id hid => ?_⟩
  · cases hv : memory[id.word]? with
    | some v =>
      refine memoryOf_eq (hcells.2 ⟨hid, v, hv, rfl⟩) fun w hw => ?_
      obtain ⟨-, v', hv', rfl⟩ := hcells.1 hw
      rw [Option.some.inj (hv'.symm.trans hv)]
    | none =>
      refine Option.eq_none_iff_forall_ne_some.2 fun w hw => ?_
      obtain ⟨-, v', hv', -⟩ := hcells.1 (mem_of_memoryOf hw)
      rw [hv'] at hv
      cases hv
  · exact Option.eq_none_iff_forall_ne_some.2 fun w hw => hid (hcells.1 (mem_of_memoryOf hw)).1

namespace Context

variable {c : Context}

/-- Variables of the alternate window that have contents hold four lanes at least, of any kind. -/
def AlternateFull (c : Context) (memory : WordMap Value) : Prop :=
  ∀ id, c.registers.IsAlternate id → ∀ v, memory[id.word]? = some v →
    ∃ kind bits, v = .lanes kind bits ∧ 4 ≤ bits.length

/-- The lanes of the inputs in memory, by location. -/
def inputsIn (c : Context) (memory : WordMap Value) (location : UInt32) : List UInt32 :=
  ((c.inputs[location]?).map fun id => (({ memory } : Machine).read c.close id).bits).getD []

/-- Typed memory holds its own registers and inputs. -/
theorem loads_of_typed {memory : WordMap Value} (h : c.close.Typed memory) (before : Registers) :
    c.Loads memory (c.registersIn { memory } before) (c.inputsIn memory) := by
  refine ⟨h, ?_, fun location id hid => ?_⟩
  · funext place
    unfold registersIn
    cases c.registers.variableOf? place.slot <;> rfl
  · unfold inputsIn
    rw [hid]
    rfl

end Context

/-- Typed memory that agrees on the alternate window in four lanes. -/
theorem Lowering.exists_alongside {settings : LiftSettings} {p : Program} {stats : Stats} {c : Context}
    (hp : p.defect? = none) (hc : shade settings p = .ok (.ok stats, c)) {memory : WordMap Value}
    (hfull : c.AlternateFull memory) : ∃ part : WordMap Value, c.close.Typed part ∧
      ∀ id, c.registers.IsAlternate id →
        (memory[id.word]?).map Value.front = (part[id.word]?).map Value.front := by
  have h := Launch.shade_ends_blank hp hc
  obtain ⟨part, hpart, hnone⟩ := exists_restriction memory c.registers.IsAlternate
  refine ⟨part, fun id t s v hd hv => ?_, fun id hid => ?_⟩
  · by_cases hid : c.registers.IsAlternate id
    · rw [hpart id hid] at hv
      obtain ⟨v', hv', rfl⟩ := Option.map_eq_some_iff.1 hv
      obtain ⟨kind, bits, rfl, hlen⟩ := hfull id hid v' hv'
      obtain ⟨slot, hslot, -⟩ := hid
      obtain ⟨t', ht'⟩ := h.ready.keeps.declared slot id hslot
      have hd' : c.builder.definition? id = some (.var t s) := hd
      rw [hd'] at ht'
      cases ht'
      have hp := Environment.pointee_of_var h.wellFormed_close hd
      rw [if_neg (by decide)] at hp
      exact ⟨by decide, hp.hasType ((List.length_take ..).trans (Nat.min_eq_left hlen))⟩
    · rw [hnone id hid] at hv
      cases hv
  · rw [hpart id hid, Option.map_map]
    exact congrArg (Option.map · _) (funext fun v => v.front_floatFront.symm)

/-! ## Runs -/

namespace Lowering

variable {settings : LiftSettings} {p : Program} {stats : Stats} {c : Context} {texels : Texels}
  {memory memory' : WordMap Value}

theorem shade_separated (hp : p.defect? = none) (h : shade settings p = .ok (.ok stats, c)) :
    Separated c.registers.IsAlternate (Fetch.SpatialAt (p.fetches settings.registerSlots))
      c.close.body.toList := by
  obtain ⟨hparted, hrequested⟩ := shade_requested hp h
  exact (Launch.shade_ends_blank hp h).separated hparted hrequested

/-- Runs from typed memory do not stop, and make the requests of the fetches. -/
theorem run_of_typed (hp : p.defect? = none) (h : shade settings p = .ok (.ok stats, c))
    (texels : Texels) (hm : c.close.Typed memory) (before : Registers) :
    ∃ m, Machine.run c.close texels { memory } = (m, none) ∧
      m.samples.toList = ((p.fetches settings.registerSlots).foldl
        (Fetch.exec ⟨texels, c.samplers.image, c.inputsIn memory, settings.registerSlots⟩)
        { registers := c.registersIn { memory } before }).samples := by
  let x : Launch := ⟨⟨texels, memory⟩, c.registersIn { memory } before, settings.registerSlots⟩
  have hends : x.Ends p (.ok stats) c := Launch.shade_ends rfl hp h
  have hstate := hends.exec _ ⟨stats, rfl⟩ (hends.suits (Context.loads_of_typed hm before))
  obtain ⟨hsound, hafter⟩ := hends.sound_close
  refine ⟨x.after c.close, (hsound.runs hm).done, ?_⟩
  rw [hafter hm]
  exact (congrArg ShaderState.samples hstate).trans (by rw [p.exec_eq]; rfl)

theorem values_start (memory memory' : WordMap Value) :
    ({ memory } : Machine).values = ({ memory := memory' } : Machine).values :=
  rfl

/-- Runs from memories that differ in the alternate window go the same way. -/
theorem run_matched (hp : p.defect? = none) (h : shade settings p = .ok (.ok stats, c))
    (texels : Nat → Texel) (hfull : c.AlternateFull memory) (hfull' : c.AlternateFull memory')
    (hsame : ∀ id, ¬ c.registers.IsAlternate id → memory[id.word]? = memory'[id.word]?) :
    ∃ m m' stop, Machine.run c.close (fun n _ => texels n) { memory } = (m, stop) ∧
      Machine.run c.close (fun n _ => texels n) { memory := memory' } = (m', stop) ∧
      Separated.Matched c.registers.IsAlternate
        (Fetch.SpatialAt (p.fetches settings.registerSlots)) m m' := by
  have hs := shade_separated hp h
  have hsupport {memory : WordMap Value} (hfull : c.AlternateFull memory) (before : List Inst)
      (i : Inst) (m : Machine) (hb : before ++ [i] <+: c.close.body.toList)
      (hm : Machine.steps c.close (fun n _ => texels n) { memory } before = (m, none)) :
      Separated.Supported c.registers.IsAlternate c.close before i m := by
    obtain ⟨part, htyped, hpart⟩ := exists_alongside hp h hfull
    obtain ⟨last, hlast, -⟩ := run_of_typed hp h (fun n _ => texels n) htyped fun _ => 0
    exact hs.supported (values_start memory part) hpart rfl rfl hlast hb hm
  obtain ⟨m, m', stop, hm, hm', hmatched, -⟩ := hs.lockstep (values_start memory memory') hsame rfl
    rfl (hsupport hfull) (hsupport hfull') (List.prefix_refl _)
  exact ⟨m, m', stop, hm, hm', hmatched⟩

/-- No run changes the alternate window, however far it goes. -/
theorem contents?_alternate (hp : p.defect? = none) (h : shade settings p = .ok (.ok stats, c))
    {before : List Inst} (hb : before <+: c.close.body.toList) {id : Ref}
    (hid : c.registers.IsAlternate id) :
    (Machine.steps c.close texels { memory } before).1.contents? id = memory[id.word]? :=
  Machine.contents?_steps fun i hi hop hptr =>
    ((shade_separated hp h).stores i (hb.subset hi) hop).1 id hptr hid

theorem registersIn_alternate (hsame : ∀ id, c.registers.IsAlternate id →
      (memory[id.word]?).map Value.front = (memory'[id.word]?).map Value.front)
    (before : Registers) : (c.registersIn { memory } before).AgreeOn Window.alternate
      (c.registersIn { memory := memory' } before) := by
  intro place hw
  unfold Context.registersIn
  cases hid : c.registers.variableOf? place.slot with
  | none => rfl
  | some id =>
    simp only [Machine.read, Machine.contents?]
    rw [← Value.getD_front, ← Value.getD_front, ← Option.getD_map Value.front,
      ← Option.getD_map Value.front, hsame id ⟨place.slot, hid, hw⟩]

/-- The second gradient of three dimensions is in the alternate window. -/
theorem dy_of_run (hp : p.defect? = none) (h : shade settings p = .ok (.ok stats, c))
    (hfull : c.AlternateFull memory) {n : Nat} {i : Sample} {d : SamplerDesc} {call : SampleCall}
    (hf : (p.fetches settings.registerSlots)[n]? = some (.sample i d))
    (hspatial : (Fetch.sample i d).isSpatial = true)
    (hcall : (Machine.run c.close texels { memory }).1.samples[n]? = some call) (before : Registers)
    (hsame : ∀ id, c.registers.IsAlternate id → memory[id.word]? = memory'[id.word]?) :
    call.dy? = some (i.lodSource.elements (c.registersIn { memory := memory' } before)
      Window.alternate 3) := by
  obtain ⟨part, htyped, hpart⟩ := exists_alongside hp h hfull
  obtain ⟨last, hlast, hsamples⟩ := run_of_typed hp h texels htyped before
  obtain ⟨m, stop, mₛ, hm, hmₛ, hshadows⟩ := (shade_separated hp h).shadowed
    (values_start memory part) hpart rfl rfl hlast (List.prefix_refl _)
  obtain rfl : last = mₛ := (Prod.mk.inj (hlast.symm.trans hmₛ)).1
  have hcall' : m.samples[n]? = some call := by
    rw [← hcall]
    exact congrArg (fun r : Machine × Option Stop => r.1.samples[n]?) hm.symm
  obtain ⟨callₛ, hcallₛ, hdy⟩ := hshadows.gradients n call ⟨_, hf, hspatial⟩ hcall'
  -- the request of the typed run is the program's, in registers that agree on the window
  have hat := Fetch.getElem?_samples_of_fetch
    ⟨texels, c.samplers.image, c.inputsIn part, settings.registerSlots⟩ hf
    (c.registersIn { memory := part } before)
  rw [← hsamples, Array.getElem?_toList, hcallₛ] at hat
  rw [hdy, Option.some.inj hat, Fetch.dy_request hspatial]
  refine congrArg some (i.lodSource.elements_congr (fun place hw => ?_) 3)
  rw [Fetch.foldl_alternate _ _ _ place hw]
  exact registersIn_alternate (fun id hid => (hpart id hid).symm.trans (congrArg _ (hsame id hid)))
    before place hw

theorem size_samples_of_typed (hp : p.defect? = none) (h : shade settings p = .ok (.ok stats, c))
    (texels : Texels) (hm : c.close.Typed memory) : ∃ m,
      Machine.run c.close texels { memory } = (m, none) ∧
        m.samples.size = (p.fetches settings.registerSlots).length := by
  obtain ⟨m, hrun, hsamples⟩ := run_of_typed hp h texels hm fun _ => 0
  refine ⟨m, hrun, ?_⟩
  rw [← Array.length_toList, hsamples, Fetch.length_samples_foldl]
  exact Nat.zero_add _

end Lowering

/-! ## Isolation -/

/-- The alternate window influences nothing but second gradients of three dimensions, provided that its
variables hold four lanes at least where they hold anything. Runs from memories that differ in it alone stop
for the same reason, with the same memory otherwise and the same requests up to such gradients; no run
changes its variables; such gradients are the first three elements of their operand in it, whatever
else memory holds. From typed memory, every fetch makes its request. -/
theorem shade_isolates_alternate {settings : LiftSettings} {p : Program} {stats : Stats} {c : Context}
    (hp : p.defect? = none) (h : shade settings p = .ok (.ok stats, c)) :
    (∀ (texels : Nat → Texel) (memory memory' : WordMap Value),
      c.AlternateFull memory → c.AlternateFull memory' →
      (∀ id, ¬ c.registers.IsAlternate id → memory[id.word]? = memory'[id.word]?) →
      ∃ m m' stop, Machine.run c.close (fun n _ => texels n) { memory } = (m, stop) ∧
        Machine.run c.close (fun n _ => texels n) { memory := memory' } = (m', stop) ∧
        (∀ id, ¬ c.registers.IsAlternate id → m.contents? id = m'.contents? id) ∧
        m.samples.size = m'.samples.size ∧
        ∀ (n : Nat) call call', m.samples[n]? = some call → m'.samples[n]? = some call' →
          call.Alike (Fetch.SpatialAt (p.fetches settings.registerSlots) n) call') ∧
    (∀ texels memory before, before <+: c.close.body.toList → ∀ id, c.registers.IsAlternate id →
      (Machine.steps c.close texels { memory } before).1.contents? id = memory[id.word]?) ∧
    (∀ (texels : Texels) (memory : WordMap Value), c.AlternateFull memory →
      ∀ (n : Nat) (i : Sample) (d : SamplerDesc) call,
      (p.fetches settings.registerSlots)[n]? = some (.sample i d) →
      (Fetch.sample i d).isSpatial = true →
      (Machine.run c.close texels { memory }).1.samples[n]? = some call →
      ∀ (before : Registers) (memory' : WordMap Value),
        (∀ id, c.registers.IsAlternate id → memory[id.word]? = memory'[id.word]?) →
        call.dy? = some (i.lodSource.elements (c.registersIn { memory := memory' } before)
          Window.alternate 3)) ∧
    ∀ (texels : Texels) (memory : WordMap Value), c.close.Typed memory →
      ∃ m, Machine.run c.close texels { memory } = (m, none) ∧
        m.samples.size = (p.fetches settings.registerSlots).length := by
  refine ⟨fun texels memory memory' hfull hfull' hsame => ?_, fun texels memory before hb id hid =>
    contents?_alternate hp h hb hid, fun texels memory hfull n i d call hf hspatial hcall before
    memory' hsame => dy_of_run hp h hfull hf hspatial hcall before hsame,
    fun texels memory hm => size_samples_of_typed hp h texels hm⟩
  obtain ⟨m, m', stop, hm, hm', hmatched⟩ := run_matched hp h texels hfull hfull' hsame
  exact ⟨m, m', stop, hm, hm', hmatched.contents, hmatched.size, hmatched.requests⟩

/-- A sample with gradients of three dimensions. -/
def spatialSample : Sample where
  dimension := 2
  lodMode := 3
  lodIndex := 2

/-- A program of one such sample. -/
def spatialProgram : Program where
  samplers := [{ index := 0, componentCount := 4, encoding := .f32 }]
  instructions := [spatialSample.encode]

/-- The memory with one variable. -/
def memoryAt (id : Ref) (v : Value) : WordMap Value :=
  (∅ : WordMap Value).insert id.word v

theorem getElem?_memoryAt (id id' : Ref) (v : Value) :
    (memoryAt id v)[id'.word]? = if id = id' then some v else none := by
  unfold memoryAt
  rw [WordMap.getElem?_insert_word]
  simp

theorem memoryAt_off {V : Ref → Prop} {id : Ref} (hid : V id) (v : Value) (id' : Ref) (h : ¬ V id') :
    (memoryAt id v)[id'.word]? = (∅ : WordMap Value)[id'.word]? := by
  rw [getElem?_memoryAt, if_neg]
  · simp
  · rintro rfl
    exact h hid

/-- The second gradients of the requests that a module makes, empty for those without. -/
def Context.gradientsFrom (c : Context) (memory : WordMap Value) : List (List UInt32) :=
  (Machine.run c.close (fun _ _ => ⟨5, 6, 7, 8⟩) { memory }).1.samples.toList.map (·.dy?.getD [])

/-- The module of the program has one variable for the alternate window. The requests are those from
empty memory and with five integers or a single float in that variable. -/
theorem exists_shade_spatialProgram : ∃ c id, shade {} spatialProgram = .ok (.ok { emitted := 1 }, c) ∧
    c.registers.IsAlternate id ∧ c.gradientsFrom ∅ = [[0, 0, 0]] ∧
    c.gradientsFrom (memoryAt id (.lanes .u32 [1, 2, 3, 4, 5])) = [[1, 2, 3]] ∧
    c.gradientsFrom (memoryAt id (.lanes .f32 [1])) = [] := by
  have h : (shade {} spatialProgram).toOption.map (fun r => (r.1,
      (r.2.registers.variableOf? ⟨.temp, Window.alternate, 1⟩).map fun id =>
        [r.2.gradientsFrom ∅, r.2.gradientsFrom (memoryAt id (.lanes .u32 [1, 2, 3, 4, 5])),
          r.2.gradientsFrom (memoryAt id (.lanes .f32 [1]))])) =
      some (.ok { emitted := 1 }, some [[[0, 0, 0]], [[1, 2, 3]], []]) := by decide +kernel
  obtain ⟨⟨r, c⟩, hs, hparts⟩ := exists_of_toOption_map h
  obtain ⟨rfl, hruns⟩ := Prod.mk.inj hparts
  obtain ⟨id, hid, hrequests⟩ := Option.map_eq_some_iff.1 hruns
  obtain ⟨hempty, hrequests⟩ := List.cons.inj hrequests
  obtain ⟨hfull, hrequests⟩ := List.cons.inj hrequests
  exact ⟨c, id, hs, ⟨_, hid, rfl⟩, hempty, hfull, (List.cons.inj hrequests).1⟩

/-- Five integers in the window are as good as nothing but for the gradient. -/
theorem shade_isolates_alternate_spatialProgram : spatialProgram.defect? = none ∧ ∃ c id m m' call call',
    shade {} spatialProgram = .ok (.ok { emitted := 1 }, c) ∧ c.registers.IsAlternate id ∧
    c.AlternateFull (memoryAt id (.lanes .u32 [1, 2, 3, 4, 5])) ∧
    Machine.run c.close (fun _ _ => ⟨5, 6, 7, 8⟩)
      { memory := memoryAt id (.lanes .u32 [1, 2, 3, 4, 5]) } = (m, none) ∧
    Machine.run c.close (fun _ _ => ⟨5, 6, 7, 8⟩) {} = (m', none) ∧
    (∀ id, ¬ c.registers.IsAlternate id → m.contents? id = m'.contents? id) ∧
    m.samples = #[call] ∧ m'.samples = #[call'] ∧ call.Alike True call' ∧
    call.dy? = some [1, 2, 3] ∧
    call.dy? = some (spatialSample.lodSource.elements
      (c.registersIn { memory := memoryAt id (.lanes .u32 [1, 2, 3, 4, 5]) } fun _ => 0)
      Window.alternate 3) := by
  obtain ⟨c, id, hc, hid, -, hrequests, -⟩ := exists_shade_spatialProgram
  obtain ⟨hruns, -, hdy, hsize⟩ := shade_isolates_alternate (by decide) hc
  have hfetches : spatialProgram.fetches ({} : LiftSettings).registerSlots = [.sample spatialSample
      { index := 0, componentCount := 4, encoding := .f32 }] := by decide +kernel
  have hfull : c.AlternateFull (memoryAt id (.lanes .u32 [1, 2, 3, 4, 5])) := by
    intro id' _ v hv
    rw [getElem?_memoryAt] at hv
    split at hv
    · exact ⟨_, _, (Option.some.inj hv).symm, by decide⟩
    · cases hv
  obtain ⟨m, m', stop, hm, hm', hcontents, hsizes, halike⟩ := hruns (fun _ => ⟨5, 6, 7, 8⟩) _ ∅ hfull
    (fun _ _ v hv => by simp at hv) (memoryAt_off hid _)
  obtain ⟨m'', hm'', hsize⟩ := hsize (fun _ _ => ⟨5, 6, 7, 8⟩) ∅ fun _ _ _ v _ hv => by simp at hv
  obtain ⟨rfl, rfl⟩ := Prod.mk.inj (hm'.symm.trans hm'')
  rw [hfetches] at halike hdy hsize
  obtain ⟨call', hcall'⟩ := Array.size_eq_one_iff.1 hsize
  obtain ⟨call, hcall⟩ := Array.size_eq_one_iff.1 (hsizes.trans hsize)
  have hdy := hdy (fun _ _ => ⟨5, 6, 7, 8⟩) _ hfull 0 spatialSample _ call rfl rfl
    (by rw [hm, hcall]; rfl) (fun _ => 0) _ fun _ _ => rfl
  refine ⟨by decide, c, id, m, m', call, call', hc, hid, hfull, hm, hm', hcontents, hcall, hcall', ?_,
    ?_, hdy⟩
  · have h := halike 0 call call' (by rw [hcall]; rfl) (by rw [hcall']; rfl)
    exact ⟨h.image, h.opcode, h.coord, h.lod, h.dx, fun hf => absurd trivial hf⟩
  · unfold Context.gradientsFrom at hrequests
    rw [hm, hcall] at hrequests
    have hgradient : call.dy?.getD [] = [1, 2, 3] := (List.cons.inj hrequests).1
    rw [hdy] at hgradient ⊢
    exact congrArg some hgradient

/-- A variable of the alternate window that has a single lane keeps the module from requesting
anything, unlike memory that differs in this variable alone. -/
theorem shade_alternate_narrow : spatialProgram.defect? = none ∧ ∃ c id,
    shade {} spatialProgram = .ok (.ok { emitted := 1 }, c) ∧ c.registers.IsAlternate id ∧
    (∀ id', ¬ c.registers.IsAlternate id' →
      (memoryAt id (.lanes .f32 [1]))[id'.word]? = (∅ : WordMap Value)[id'.word]?) ∧
    (Machine.run c.close (fun _ _ => ⟨5, 6, 7, 8⟩) { memory := ∅ }).1.samples.size = 1 ∧
    (Machine.run c.close (fun _ _ => ⟨5, 6, 7, 8⟩)
      { memory := memoryAt id (.lanes .f32 [1]) }).1.samples.size = 0 := by
  obtain ⟨c, id, hc, hid, hempty, -, hnarrow⟩ := exists_shade_spatialProgram
  have hsize {memory : WordMap Value} {gradients : List (List UInt32)}
      (h : c.gradientsFrom memory = gradients) : (Machine.run c.close (fun _ _ => ⟨5, 6, 7, 8⟩)
        { memory }).1.samples.size = gradients.length := by
    rw [← h, Context.gradientsFrom, List.length_map, Array.length_toList]
  exact ⟨by decide, c, id, hc, hid, memoryAt_off hid _, hsize hempty, hsize hnarrow⟩

end TextureLift
