import TextureLift.Proofs.Lowering.Frame

/-!
# Lowering preserves meaning

A program means a change of registers and a list of requests (`Program.exec`); its module runs on the
machine, which has variables in place of registers. The two are compared through what memory holds:

    c.registersIn m before   the registers, as the variables of their slots have them
    c.Loads memory r input   memory that holds the registers `r` and the inputs `input`

Every contents can be loaded, and the run of a closed module from loaded memory ends with the requests
and the registers of the program.
-/

namespace TextureLift

open Builder Lowering

/-! ## Registers in memory -/

namespace Context

/-- The registers that a machine holds. Slots that the code does not touch have no variable and are as
before. -/
def registersIn (c : Context) (m : Machine) (before : Registers) : Registers := fun place =>
  match c.registers.variableOf? place.slot with
  | some id => (m.read c.close id).bits.getD (place.component % 4).toNat 0
  | none => before place

/-- Memory that fits the module and holds these registers and inputs. -/
structure Loads (c : Context) (memory : WordMap Value) (r : Registers)
    (input : UInt32 → List UInt32) : Prop where
  typed : c.close.Typed memory
  registers : c.registersIn { memory } r = r
  inputs : ∀ (location : UInt32) (id : Ref), c.inputs[location]? = some id →
    (({ memory } : Machine).read c.close id).bits = input location

end Context

/-- A variable of floats reads as its first contents before the run. -/
theorem Environment.Sound.read_start {e : Environment} {b : Builder} {id t : Ref} {s : Storage}
    (hs : e.Sound b) (hf : e.Fits b) (hd : b.definition? id = some (.var t s))
    (hne : s ≠ .uniformConstant) : (e.start.read b id).bits = e.firstContents id := by
  show ((e.memory[id.word]?).getD (b.initialValue id)).bits = _
  unfold firstContents
  rw [initialValue_of_var hs.wellFormed hd hne]
  cases hm : e.memory[id.word]? with
  | none => rfl
  | some v =>
    obtain ⟨bits, rfl, hlen⟩ := hf.four_floats hs.wellFormed hd hm
    exact (four_lanes hlen).symm

namespace Launch

variable {x : Launch} {c : Context} {p : Program} {r : Except Failure Stats}
  {input : UInt32 → List UInt32}

theorem Ends.suits (h : x.Ends p r c) (hl : c.Loads x.memory x.registers input) :
    x.Suits input c := by
  have hsound := h.sound_close.1
  have htyped := Environment.Fits.anti hl.typed h.ready.keeps.sound.wellFormed (TableLe.refl _)
  refine ⟨⟨htyped, fun place id hid => ?_⟩, fun location id hid => ?_⟩
  · obtain ⟨t, ht⟩ := h.ready.keeps.declared _ id hid
    have hread : (x.start.read c.close id).bits = x.firstContents id :=
      hsound.read_start hl.typed ht (by decide)
    have hplace := congrFun hl.registers place
    unfold Context.registersIn at hplace
    rw [hid] at hplace
    rw [← hread]
    exact hplace
  · obtain ⟨t, ht⟩ := h.ready.inputs location id hid
    have hread : (x.start.read c.close id).bits = x.firstContents id :=
      hsound.read_start hl.typed ht (by decide)
    rw [← hread]
    exact hl.inputs location id hid

theorem Ready.registersIn_after (h : x.Ready c) :
    c.registersIn (x.after c.builder) x.registers = x.word c.toEmitter := by
  funext place
  unfold Context.registersIn Launch.word
  cases hid : c.registers.variableOf? place.slot with
  | none => rfl
  | some id =>
    obtain ⟨t, ht⟩ := h.keeps.declared _ id hid
    have hinit : c.builder.initialValue id = c.close.initialValue id :=
      h.keeps.sound.wellFormed.initialValue_eq (TableLe.refl _) ht
    unfold Environment.contents Machine.read
    simp only [List.getD_eq_getElem?_getD, List.getElem?_map, List.getElem?_range place.lane_lt,
      Option.map_some, Option.getD_some, hinit]

end Launch

/-! ## Loading -/

/-- The map that a list of cells gives; earlier cells count. -/
def memoryOf (cells : List (UInt32 × Value)) : WordMap Value :=
  cells.foldr (fun cell memory => memory.insert cell.1 cell.2) ∅

theorem mem_of_memoryOf {cells : List (UInt32 × Value)} {key : UInt32} {v : Value}
    (h : (memoryOf cells)[key]? = some v) : (key, v) ∈ cells := by
  induction cells with
  | nil => simp [memoryOf] at h
  | cons cell cells ih =>
    have h' : ((memoryOf cells).insert cell.1 cell.2)[key]? = some v := h
    rw [WordMap.getElem?_insert] at h'
    split at h'
    · rename_i hkey
      obtain rfl := Option.some.inj h'
      exact hkey ▸ List.mem_cons_self ..
    · exact List.mem_cons_of_mem cell (ih h')

theorem memoryOf_isSome {cells : List (UInt32 × Value)} {key : UInt32} {v : Value}
    (h : (key, v) ∈ cells) : ∃ w, (memoryOf cells)[key]? = some w := by
  induction cells with
  | nil => cases h
  | cons cell cells ih =>
    show ∃ w, ((memoryOf cells).insert cell.1 cell.2)[key]? = some w
    rw [WordMap.getElem?_insert]
    split
    · exact ⟨_, rfl⟩
    · rename_i hkey
      rcases List.mem_cons.1 h with rfl | h
      · exact absurd rfl hkey
      · exact ih h

theorem memoryOf_eq {cells : List (UInt32 × Value)} {key : UInt32} {v : Value}
    (h : (key, v) ∈ cells) (hv : ∀ w, (key, w) ∈ cells → w = v) :
    (memoryOf cells)[key]? = some v := by
  obtain ⟨w, hw⟩ := memoryOf_isSome h
  rw [hw, hv w (mem_of_memoryOf hw)]

/-- The four registers of a slot. -/
def Slot.words (r : Registers) (slot : Slot) : List UInt32 :=
  (List.range 4).map fun lane => r ⟨slot.bank, slot.window, slot.index * 4 + .ofNat lane⟩

theorem Slot.words_place (r : Registers) (place : Place) :
    (Slot.words r place.slot).getD (place.component % 4).toNat 0 = r place := by
  have hcomponent : place.component / 4 * 4 + .ofNat (place.component % 4).toNat =
      place.component := by
    rw [UInt32.ofNat_toNat, ← UInt32.toNat_inj, UInt32.toNat_add, UInt32.toNat_mul,
      UInt32.toNat_div, UInt32.toNat_mod]
    have hlt := place.component.toNat_lt
    simp only [UInt32.reduceToNat]
    omega
  unfold Slot.words
  simp only [List.getD_eq_getElem?_getD, List.getElem?_map, List.getElem?_range place.lane_lt,
    Option.map_some, Option.getD_some, Place.slot, hcomponent]

namespace Context

variable {c : Context} {r : Registers} {input : UInt32 → List UInt32}

/-- The variables of the registers and inputs, with their contents. -/
def cells (c : Context) (r : Registers) (input : UInt32 → List UInt32) : List (UInt32 × Value) :=
  (c.registers.slots.filter fun entry => c.registers.variableOf? entry.1 = some entry.2).map
      (fun entry => (entry.2.word, .lanes .f32 (entry.1.words r))) ++
    c.inputs.toList.map fun entry => (entry.2.word, .lanes .f32 (input entry.1))

theorem mem_cells {id : Ref} {v : Value} : (id.word, v) ∈ c.cells r input ↔
    (∃ slot, c.registers.variableOf? slot = some id ∧ v = .lanes .f32 (slot.words r)) ∨
      ∃ location : UInt32, c.inputs[location]? = some id ∧ v = .lanes .f32 (input location) := by
  have hword : ∀ {id' : Ref}, id'.word = id.word → id' = id := fun h => by
    cases id
    cases h
    rfl
  unfold cells
  rw [List.mem_append]
  refine or_congr ⟨fun h => ?_, fun ⟨slot, hslot, hv⟩ => ?_⟩
    ⟨fun h => ?_, fun ⟨location, hl, hv⟩ => ?_⟩
  · obtain ⟨⟨slot, id'⟩, hmem, heq⟩ := List.mem_map.1 h
    obtain ⟨hid, rfl⟩ := Prod.mk.inj heq
    obtain rfl := hword hid
    exact ⟨slot, of_decide_eq_true (List.mem_filter.1 hmem).2, rfl⟩
  · obtain ⟨before, after, hsplit, -⟩ := List.lookup_eq_some_iff.1 hslot
    refine List.mem_map.2 ⟨(slot, id), List.mem_filter.2 ⟨?_, decide_eq_true hslot⟩, by rw [hv]⟩
    rw [hsplit]
    exact List.mem_append_right _ (List.mem_cons_self ..)
  · obtain ⟨⟨location, id'⟩, hmem, heq⟩ := List.mem_map.1 h
    obtain ⟨hid, rfl⟩ := Prod.mk.inj heq
    obtain rfl := hword hid
    exact ⟨location, Std.ExtTreeMap.mem_toList_iff_getElem?_eq_some.1 hmem, rfl⟩
  · exact List.mem_map.2
      ⟨(location, id), Std.ExtTreeMap.mem_toList_iff_getElem?_eq_some.2 hl, by rw [hv]⟩

end Context

namespace Launch

variable {x : Launch} {c : Context} {r : Registers} {input : UInt32 → List UInt32}

theorem Ready.memory_slot (h : x.Ready c) {slot : Slot} {id : Ref}
    (hid : c.registers.variableOf? slot = some id) :
    (memoryOf (c.cells r input))[id.word]? = some (.lanes .f32 (slot.words r)) := by
  obtain ⟨t, ht⟩ := h.keeps.declared slot id hid
  refine memoryOf_eq (Context.mem_cells.2 (.inl ⟨slot, hid, rfl⟩)) fun w hw => ?_
  rcases Context.mem_cells.1 hw with ⟨slot', hid', rfl⟩ | ⟨location, hid', -⟩
  · rw [h.keeps.injective slot' slot id hid' hid]
  · obtain ⟨t', ht'⟩ := h.inputs location id hid'
    rw [ht] at ht'
    cases ht'

theorem Ready.memory_input (h : x.Ready c) {location : UInt32} {id : Ref}
    (hid : c.inputs[location]? = some id) :
    (memoryOf (c.cells r input))[id.word]? = some (.lanes .f32 (input location)) := by
  obtain ⟨t, ht⟩ := h.inputs location id hid
  refine memoryOf_eq (Context.mem_cells.2 (.inr ⟨location, hid, rfl⟩)) fun w hw => ?_
  rcases Context.mem_cells.1 hw with ⟨slot, hid', -⟩ | ⟨location', hid', rfl⟩
  · obtain ⟨t', ht'⟩ := h.keeps.declared slot id hid'
    have ht'' : c.builder.definition? id = some (.var t' .priv) := ht'
    rw [ht] at ht''
    cases ht''
  · rw [h.distinct location' location id hid' hid]

/-- Every contents of registers and inputs can be loaded. -/
theorem Ends.exists_loads {p : Program} {result : Except Failure Stats} (hends : x.Ends p result c)
    (hfour : ∀ location, (input location).length = 4) : ∃ memory, c.Loads memory r input := by
  have h := hends.ready
  refine ⟨memoryOf (c.cells r input), ?_, ?_, fun location id hid => ?_⟩
  · intro id t s v hd hv
    have hvar {bits : List UInt32} (hs : s ≠ .uniformConstant) (hbits : bits.length = 4) :
        s ≠ .uniformConstant ∧ (Value.lanes .f32 bits).HasType c.close (c.close.containedType t) := by
      have hp := Environment.pointee_of_var hends.wellFormed_close hd
      rw [if_neg hs] at hp
      exact ⟨hs, hp.hasType hbits⟩
    have hd' : c.builder.definition? id = some (.var t s) := hd
    rcases Context.mem_cells.1 (mem_of_memoryOf hv) with ⟨slot, hid, rfl⟩ | ⟨location, hid, rfl⟩
    · obtain ⟨t', ht'⟩ := h.keeps.declared slot id hid
      rw [hd'] at ht'
      cases ht'
      exact hvar (by decide) (by simp [Slot.words])
    · obtain ⟨t', ht'⟩ := h.inputs location id hid
      rw [hd'] at ht'
      cases ht'
      exact hvar (by decide) (hfour location)
  · funext place
    unfold Context.registersIn
    cases hid : c.registers.variableOf? place.slot with
    | none => rfl
    | some id =>
      show (Value.bits (Option.getD (memoryOf (c.cells r input))[id.word]? _)).getD _ 0 = _
      rw [h.memory_slot hid]
      exact Slot.words_place r place
  · show Value.bits (Option.getD (memoryOf (c.cells r input))[id.word]? _) = _
    rw [h.memory_input hid]
    rfl

end Launch

/-! ## Preservation -/

/-- A projected query and a sample with gradients, of one sampler, and a word of another kind. -/
def gradientProgram : Program where
  samplers := [{ index := 6, componentCount := 2, encoding := .u8 }]
  queries := [{ sampler := 6, coordLocation := 1, destOffset := 2, divisorLane := some 3 }]
  instructions := [
    Sample.encode {
      dimension := 1, lodMode := 3, samplerIndex := 3, samplerBank := 3
      destIndex := 5, coordIndex := 1, lodIndex := 8 },
    7]

theorem exists_shade_gradientProgram : ∃ c, shade {} gradientProgram =
    .ok (.ok { emitted := 1, skipped := 1, queries := 1 }, c) := by
  have h : (shade {} gradientProgram).toOption.map (·.1) =
      some (.ok { emitted := 1, skipped := 1, queries := 1 }) := by decide +kernel
  obtain ⟨⟨_, c⟩, hs, rfl⟩ := exists_of_toOption_map h
  exact ⟨c, hs⟩

/-- The module of a program does what the program means: it makes the same requests in the same order
and leaves the same registers, whatever the registers, the inputs and the texels are. -/
theorem shade_preserves_meaning {settings : LiftSettings} {p : Program} {stats : Stats} {c : Context}
    (hp : p.defect? = none) (h : shade settings p = .ok (.ok stats, c)) :
    (∀ r input, (∀ location, (input location).length = 4) → ∃ memory, c.Loads memory r input) ∧
    ∀ texels memory r input, c.Loads memory r input →
      ∃ m, Machine.run c.close texels { memory } = (m, none) ∧
        { registers := c.registersIn m r, samples := m.samples.toList } =
          p.exec ⟨texels, c.samplers.image, input, settings.registerSlots⟩ r := by
  constructor
  · intro r input hfour
    -- the memory does not depend on the run that follows
    let x : Launch := ⟨⟨fun _ _ => ⟨0, 0, 0, 0⟩, ∅⟩, r, settings.registerSlots⟩
    exact (Launch.shade_ends (x := x) rfl hp h).exists_loads hfour
  · intro texels memory r input hloads
    let x : Launch := ⟨⟨texels, memory⟩, r, settings.registerSlots⟩
    have hends : x.Ends p (.ok stats) c := Launch.shade_ends rfl hp h
    have hstate := hends.exec input ⟨stats, rfl⟩ (hends.suits hloads)
    obtain ⟨hsound, hafter⟩ := hends.sound_close
    have hafter := hafter hloads.typed
    refine ⟨x.after c.close, (hsound.runs hloads.typed).done, ?_⟩
    rw [hafter]
    refine Eq.trans ?_ hstate
    unfold Launch.state
    rw [← hends.ready.registersIn_after]

/-- A query at a coordinate of halves, whose texel is kept as fixed-point numbers, and a sample at this
texel that is kept as bytes. -/
def packedProgram : Program where
  samplers := [{ index := 6, componentCount := 2, encoding := .u8 }]
  queries := [
    { sampler := 6, coordLocation := 1, coordEncoding := .f16, destOffset := 2
      storeEncoding := some .c10 }]
  instructions := [
    Sample.encode {
      dimension := 1, lodMode := 2, coordEncoding := 2, samplerIndex := 3, samplerBank := 3
      destFormat := 1, destIndex := 5, coordIndex := 1, coordBank := 1, lodIndex := 3 }]

/-- The first texel begins with 1 and 1/2, the second one with 300 and 2.1. -/
def packedTexels : Texels := fun n _ =>
  if n = 0 then ⟨0x3f800000, 0x3f000000, 0, 0⟩ else ⟨0x43960000, 0x40066666, 0, 0⟩

/-- The query is at 1/2 and 1, and the sample at 255/255 and 128/255 with a bias of -64/255. -/
def packedRequests : List SampleCall := [
  { image := ⟨6⟩, opcode := .imageSampleImplicitLod, coord := [0x3f000000, 0x3f800000] },
  { image := ⟨6⟩, opcode := .imageSampleExplicitLod, coord := [0x3f800000, 0x3f008081]
    lod := some 0xbe808081 }]

/-- The first words of the banks that texels go to. -/
def Registers.firstWords (r : Registers) : List (List UInt32) :=
  [Bank.primAttr, .temp].map fun bank =>
    (List.range 6).map fun n => r ⟨bank, Window.primary, .ofNat n⟩

/-- Word 2 of the first bank has 255 and 128 in its fields of ten bits, and word 5 of the second one
has 255 and 2 in its bytes. Their other bits are as before. -/
def packedWords : List (List UInt32) := [
  [0x34003bc0, 0x34003bc0, 0x340200ff, 0x34003bc0, 0x34003bc0, 0x34003bc0],
  [0x34003bc0, 0x34003bc0, 0x34003bc0, 0x34003bc0, 0x34003bc0, 0x340002ff]]

theorem shade_preserves_meaning_packedProgram : packedProgram.defect? = none ∧ ∃ c memory m,
    shade {} packedProgram = .ok (.ok { emitted := 1, queries := 1 }, c) ∧
    c.Loads memory (fun _ => 0x34003bc0) (fun _ => [0x3c003800, 0, 0, 0]) ∧
    Machine.run c.close packedTexels { memory } = (m, none) ∧
    Registers.firstWords (c.registersIn m fun _ => 0x34003bc0) = packedWords ∧
    m.samples.toList = packedRequests := by
  have hmeaning : (shade {} packedProgram).toOption.map (fun r =>
      let s := packedProgram.exec ⟨packedTexels, r.2.samplers.image, fun _ => [0x3c003800, 0, 0, 0], 64⟩
        fun _ => 0x34003bc0
      (r.1, Registers.firstWords s.registers, s.samples)) =
      some (.ok { emitted := 1, queries := 1 }, packedWords, packedRequests) := by decide +kernel
  obtain ⟨⟨_, c⟩, hc, hmeaning⟩ := exists_of_toOption_map hmeaning
  obtain ⟨rfl, hmeaning⟩ := Prod.mk.inj hmeaning
  obtain ⟨hwords, hrequests⟩ := Prod.mk.inj hmeaning
  obtain ⟨hload, hrun⟩ := shade_preserves_meaning (by decide) hc
  obtain ⟨memory, hmemory⟩ := hload (fun _ => 0x34003bc0) (fun _ => [0x3c003800, 0, 0, 0]) fun _ => rfl
  obtain ⟨m, hm, hexec⟩ := hrun packedTexels memory _ _ hmemory
  exact ⟨by decide, c, memory, m, hc, hmemory, hm,
    (congrArg (Registers.firstWords ·.registers) hexec).trans hwords,
    (congrArg ShaderState.samples hexec).trans hrequests⟩

end TextureLift
