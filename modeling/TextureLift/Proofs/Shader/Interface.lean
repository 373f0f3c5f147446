import TextureLift.Proofs.Lowering.Variables
import TextureLift.Proofs.Shader.Accounting
import TextureLift.Proofs.Shader.RoundTrip

/-!
# Inputs and the entry point

A module has one input for each location that a query of the program names, whether the sampler of the
query is declared or not. The entry point lists these inputs in the order of their locations, and a
query whose sampler is declared samples at the contents of its own input.

Inputs are found by looking at all instructions of the module, so the sections come first: an opcode
occurs in one section alone.
-/

namespace TextureLift

open Builder Lowering

/-! ## Sections -/

/-- The sections of a module. -/
inductive Part where
  | capabilities
  | imports
  | memoryModel
  | entryPoints
  | executionModes
  | annotations
  | globals
  | body
  deriving DecidableEq, Repr

/-- The sections in the order of the binary form. -/
def Part.all : List Part :=
  [capabilities, imports, memoryModel, entryPoints, executionModes, annotations, globals, body]

/-- The section that instructions with the opcode stand in. -/
def Opcode.part : Opcode → Part
  | capability => .capabilities
  | extInstImport => .imports
  | memoryModel => .memoryModel
  | entryPoint => .entryPoints
  | executionMode => .executionModes
  | decorate => .annotations
  | typeVoid | typeBool | typeInt | typeFloat | typeVector | typeImage | typeSampledImage | typePointer
  | typeFunction | constant | var => .globals
  | _ => .body

theorem Opcode.part_of_body {op : Opcode} (h : op.isFrame = true ∨ op.isCode = true) :
    op.part = .body := by
  cases op <;> first | rfl | exact absurd h (by decide)

namespace Builder

variable {b : Builder}

/-- The instructions of a section. -/
def part (b : Builder) : Part → List Inst
  | .capabilities => b.capabilities.toList.map fun n => { opcode := .capability, operands := [n] }
  | .imports => b.imports
  | .memoryModel => if b.memoryModel then [{ opcode := .memoryModel, operands := [0, 1] }] else []
  | .entryPoints => b.entryPoints.toList.map EntryPoint.inst
  | .executionModes => b.executionModes.toList.map ExecutionMode.inst
  | .annotations => b.annotations
  | .globals => b.globals
  | .body => b.body.toList

theorem insts_eq_parts (b : Builder) : b.insts = Part.all.flatMap b.part := by
  simp [insts, Part.all, part]

/-- The instructions of a section have its opcodes. -/
theorem part_of_mem (hbody : ∀ i ∈ b.body.toList, i.opcode.part = .body) {s : Part} {i : Inst}
    (hi : i ∈ b.part s) : i.opcode.part = s := by
  cases s with
  | body => exact hbody i hi
  | globals =>
    obtain ⟨entry, -, hdecl⟩ := List.mem_filterMap.1 hi
    obtain ⟨d, n⟩ := entry
    cases d with
    | type decl => cases decl <;> (obtain rfl := Option.some.inj hdecl; rfl)
    | constant | var =>
      obtain rfl := Option.some.inj hdecl
      rfl
    | plain | value => cases hdecl
  | memoryModel =>
    have hi : i ∈ if b.memoryModel then [{ opcode := .memoryModel, operands := [0, 1] }] else [] := hi
    split at hi
    · obtain rfl := List.mem_singleton.1 hi
      rfl
    · cases hi
  | capabilities | imports | entryPoints | executionModes | annotations =>
    obtain ⟨_, -, rfl⟩ := List.mem_map.1 hi
    rfl

/-- Instructions of some opcodes are found in the section of these. -/
theorem filter_insts (hbody : ∀ i ∈ b.body.toList, i.opcode.part = .body) {P : Inst → Bool} {s : Part}
    (hP : ∀ i, P i = true → i.opcode.part = s) : b.insts.filter P = (b.part s).filter P := by
  have hnil (s' : Part) (hne : s' ≠ s) : (b.part s').filter P = [] :=
    List.filter_eq_nil_iff.2 fun i hi hPi => hne ((part_of_mem hbody hi).symm.trans (hP i hPi))
  rw [insts_eq_parts, List.filter_flatMap]
  cases s <;> simp [Part.all, hnil]

end Builder

/-! ## Inputs -/

/-- The instruction declares an input. -/
def Inst.isInput (i : Inst) : Bool :=
  i.opcode = .var && i.operands = [Storage.input.number]

/-- The instruction gives a variable its location. -/
def Inst.isLocation (i : Inst) : Bool :=
  i.opcode = .decorate && i.operands[1]? = some Decoration.location

/-- The module has one input for each of the locations, a variable of four floats, and its only entry
point lists them in this order. -/
structure Builder.Interface (b : Builder) (main : Ref) (locations : List UInt32)
    (input : UInt32 → Ref) : Prop where
  distinct : (locations.map input).Nodup
  entry : b.insts.filter (·.opcode = .entryPoint) =
    [EntryPoint.inst ⟨Context.fragmentModel, main, "main", locations.map input⟩]
  declared : (b.insts.filter Inst.isInput).Perm (locations.map fun location =>
    ⟨.var, b.typeOf? (input location), some (input location), [Storage.input.number]⟩)
  located : (b.insts.filter Inst.isLocation).Perm (locations.map fun location =>
    Decoration.inst ⟨input location, Decoration.location, location⟩)
  typed : ∀ location ∈ locations, ∃ t vec, b.typeOf? (input location) = some t ∧
    b.typeDecl? t = some (.pointer .input vec) ∧ b.LaneType vec .f32 4

/-- The values of a map, in the order of its keys. -/
theorem WordMap.values_eq_map_keys {α : Type} (m : WordMap α) (v : α) :
    m.values = m.keys.map fun key => (m[key]?).getD v := by
  rw [Launch.values_eq_map, ← Std.ExtTreeMap.map_fst_toList_eq_keys, List.map_map]
  refine List.map_congr_left fun entry hentry => ?_
  have hget : m[entry.1]? = some entry.2 := Std.ExtTreeMap.mem_toList_iff_getElem?_eq_some.1 hentry
  exact (congrArg (·.getD v) hget).symm

namespace Context

variable {c : Context}

/-- The input of a location. -/
def input (c : Context) (location : UInt32) : Ref :=
  (c.inputs[location]?).getD ⟨0⟩

theorem mem_locations {location : UInt32} :
    location ∈ c.inputs.keys ↔ c.inputs[location]? = some (c.input location) := by
  rw [Std.ExtTreeMap.mem_keys, Std.ExtTreeMap.mem_iff_isSome_getElem?]
  unfold input
  cases c.inputs[location]? <;> simp

theorem locations_ascending (c : Context) : c.inputs.keys.Pairwise (· < ·) :=
  Std.ExtTreeMap.ordered_keys.imp fun h => Std.compare_eq_lt.1 h

theorem Arranged.receives_close (h : c.Arranged) : c.close.Receives c.inputs :=
  h.receives.mono (TableLe.refl c.builder) (fun _ _ h => h) rfl

theorem Arranged.input_injective (h : c.Arranged) : (c.inputs.keys.map c.input).Nodup := by
  refine List.Nodup.map_on (fun l hl l' hl' heq => ?_) Std.ExtTreeMap.nodup_keys
  refine h.receives.distinct l l' (c.input l) (mem_locations.1 hl) ?_
  rw [heq]
  exact mem_locations.1 hl'

/-- The declarations of inputs are those of the locations. -/
theorem Arranged.inputs_declared (h : c.Arranged) (hb : c.close.Numbered) :
    (c.close.globals.filter Inst.isInput).Perm (c.inputs.keys.map fun location =>
      ⟨.var, c.close.typeOf? (c.input location), some (c.input location), [Storage.input.number]⟩) := by
  refine (List.perm_ext_iff_of_nodup (hb.nodup_globals.filter _) ?_).2 fun i => ?_
  · refine List.Nodup.of_map Inst.result ?_
    rw [List.map_map]
    have hsome := h.input_injective.map (Option.some_injective Ref)
    rwa [List.map_map] at hsome
  · rw [List.mem_filter, List.mem_map, hb.mem_globals]
    constructor
    · rintro ⟨⟨id, d, hd, hdecl⟩, hinput⟩
      cases d with
      | var t s =>
        obtain rfl := Option.some.inj hdecl
        have hnumber : s.number = Storage.input.number := by simpa [Inst.isInput] using hinput
        obtain rfl : s = .input := by
          revert hnumber
          cases s <;> decide
        obtain ⟨location, hlocation⟩ := h.receives_close.listed id t hd
        have hid : c.input location = id := by
          unfold input
          rw [hlocation]
          rfl
        refine ⟨location, mem_locations.2 (by rw [hid]; exact hlocation), ?_⟩
        rw [hid, typeOf?_eq_some.2 ⟨_, hd, rfl⟩]
      | type decl =>
        cases decl <;> (obtain rfl := Option.some.inj hdecl; exact absurd hinput Bool.false_ne_true)
      | constant t bits =>
        obtain rfl := Option.some.inj hdecl
        exact absurd hinput Bool.false_ne_true
      | plain | value t => cases hdecl
    · rintro ⟨location, hlocation, rfl⟩
      obtain ⟨t, ht, -⟩ := h.receives_close.declared location _ (mem_locations.1 hlocation)
      refine ⟨⟨c.input location, .var t .input, ht, ?_⟩, rfl⟩
      rw [typeOf?_eq_some.2 ⟨_, ht, rfl⟩]
      rfl

/-- The locations of the module are those of the inputs. -/
theorem Arranged.inputs_located (h : c.Arranged) :
    (c.close.annotations.filter Inst.isLocation).Perm (c.inputs.keys.map fun location =>
      Decoration.inst ⟨c.input location, Decoration.location, location⟩) := by
  have hfilter : c.close.annotations.filter Inst.isLocation =
      (c.close.decorations.toList.filter (·.kind = Decoration.location)).map Decoration.inst := by
    unfold annotations
    rw [List.filter_map]
    refine congrArg (List.map Decoration.inst) (List.filter_congr fun d _ => ?_)
    simp [Inst.isLocation, Decoration.inst]
  have hdecorations : (c.close.decorations.toList.filter (·.kind = Decoration.location)).Perm
      (c.inputs.keys.map fun location => ⟨c.input location, Decoration.location, location⟩) := by
    refine (List.perm_ext_iff_of_nodup h.receives_close.once ?_).2 fun d => ?_
    · refine List.Nodup.of_map Decoration.target ?_
      rw [List.map_map]
      exact h.input_injective
    · rw [List.mem_filter, decide_eq_true_iff, List.mem_map]
      constructor
      · rintro ⟨hd, hkind⟩
        have hget := (h.receives_close.located d hkind).1 hd
        have hinput : c.input d.value = d.target := by
          unfold input
          rw [hget]
          rfl
        refine ⟨d.value, mem_locations.2 (by rw [hinput]; exact hget), ?_⟩
        rw [hinput, ← hkind]
      · rintro ⟨location, hlocation, rfl⟩
        exact ⟨(h.receives_close.located _ rfl).2 (mem_locations.1 hlocation), rfl⟩
  rw [hfilter]
  have hmap := hdecorations.map Decoration.inst
  rwa [List.map_map] at hmap

/-- The closed module lists the inputs. -/
theorem Arranged.interface_close (h : c.Arranged) (hb : c.close.Numbered)
    (hbody : ∀ i ∈ c.close.body.toList, i.opcode.part = .body) :
    c.close.Interface c.main c.inputs.keys c.input := by
  refine ⟨h.input_injective, ?_, ?_, ?_, fun location hlocation => ?_⟩
  · have hentries : c.close.entryPoints.toList =
        [⟨fragmentModel, c.main, "main", c.inputs.keys.map c.input⟩] := by
      show (c.builder.entryPoints.push _).toList = _
      rw [h.entries, WordMap.values_eq_map_keys c.inputs ⟨0⟩]
      rfl
    rw [filter_insts (s := .entryPoints) hbody fun i hi => ?_]
    · rw [part, hentries]
      rfl
    · rw [of_decide_eq_true hi]
      rfl
  · rw [filter_insts (s := .globals) hbody fun i hi => ?_]
    · exact h.inputs_declared hb
    · rw [of_decide_eq_true (Bool.and_eq_true_iff.1 hi).1]
      rfl
  · rw [filter_insts (s := .annotations) hbody fun i hi => ?_]
    · exact h.inputs_located
    · rw [of_decide_eq_true (Bool.and_eq_true_iff.1 hi).1]
      rfl
  · obtain ⟨t, ht, vec, hpointer, hvec⟩ :=
      h.receives_close.declared location _ (mem_locations.1 hlocation)
    exact ⟨t, vec, typeOf?_eq_some.2 ⟨_, ht, rfl⟩, hpointer, hvec⟩

end Context

/-! ## Programs -/

namespace Lowering

variable {settings : LiftSettings} {p : Program} {stats : Stats} {c : Context}

/-- The inputs of a program are at the locations of its queries. -/
theorem shade_locations {r : Except Failure Stats} (h : shade settings p = .ok (r, c))
    (location : UInt32) : location ∈ c.inputs.keys ↔ ∃ q ∈ p.queries, q.coordLocation = location := by
  rw [Std.ExtTreeMap.mem_keys, Std.ExtTreeMap.mem_iff_isSome_getElem?]
  constructor
  · intro hsome
    obtain ⟨c₁, r', hprepare, hwords, -⟩ := exists_of_shade h
    obtain ⟨c₀, hprepared⟩ := prepared_of_prepare hprepare
    exact hprepared.inputs location (isSome_inputs_of_lowerWordsFrom hwords hsome)
  · rintro ⟨q, hq, rfl⟩
    exact (Context.shade_arranged h).2 q hq

theorem shade_interface {r : Except Failure Stats} (hp : p.defect? = none)
    (h : shade settings p = .ok (r, c)) : c.close.Interface c.main c.inputs.keys c.input := by
  have hends := Launch.shade_ends_blank hp h
  refine (Context.shade_arranged h).1.interface_close hends.wellFormed_close.toNumbered fun i hi => ?_
  obtain ⟨function, label, code, hbody, hfunction, hlabel, hcode⟩ := hends.framed
  rw [hbody] at hi
  simp only [List.mem_cons, List.mem_append, List.not_mem_nil, or_false] at hi
  rcases hi with rfl | rfl | hi | rfl | rfl
  · rw [hfunction]
    rfl
  · rw [hlabel]
    rfl
  · exact Opcode.part_of_body (.inr (hcode i hi))
  · rfl
  · rfl

/-- The queries of declared samplers are the first fetches of a program. -/
theorem fetch_of_query (slots : UInt32) {n : Nat} {q : QueryDesc}
    (hq : (p.queries.filter fun q => p.declares q.sampler)[n]? = some q) :
    q ∈ p.queries ∧ ∃ d, (p.fetches slots)[n]? = some (.query q d) := by
  have hdeclares : ∀ q ∈ p.queries, p.declares q.sampler = (p.fetchOfQuery? q).isSome := fun q _ => by
    unfold Program.fetchOfQuery?
    rw [Option.isSome_map, p.isSome_sampler?]
  have hfetches : List.Forall₂ (fun f q => p.fetchOfQuery? q = some f)
      (p.queries.filterMap p.fetchOfQuery?) (p.queries.filter fun q => p.declares q.sampler) :=
    (forall₂_filter_of_filterMap hdeclares (fun q f f' hf heq => heq ▸ hf)
      (List.forall₂_same.2 fun f _ => rfl)).flip
  obtain ⟨f, hf, hquery⟩ := getElem?_of_forall₂ hfetches hq
  obtain ⟨d, -, rfl⟩ := Option.map_eq_some_iff.1 hquery
  refine ⟨List.mem_of_mem_filter (List.mem_of_getElem? hq), d, ?_⟩
  unfold Program.fetches
  rw [List.getElem?_append_left (List.getElem?_eq_some_iff.1 hf).1]
  exact hf

/-- Queries sample at the contents of the inputs of their locations. -/
theorem query_of_run (hp : p.defect? = none) (h : shade settings p = .ok (.ok stats, c))
    (texels : Texels) {memory : WordMap Value} (hm : c.close.Typed memory) :
    ∃ m, Machine.run c.close texels { memory } = (m, none) ∧
      ∀ (n : Nat) (q : QueryDesc),
        (p.queries.filter fun q => p.declares q.sampler)[n]? = some q →
        ∃ call : SampleCall, m.samples[n]? = some call ∧ call.coord =
          q.coord (({ memory } : Machine).read c.close (c.input q.coordLocation)).bits := by
  obtain ⟨m, hrun, hsamples⟩ := run_of_typed hp h texels hm fun _ => 0
  refine ⟨m, hrun, fun n q hq => ?_⟩
  obtain ⟨hmem, d, hf⟩ := fetch_of_query settings.registerSlots hq
  have hat := Fetch.getElem?_samples_of_fetch
    ⟨texels, c.samplers.image, c.inputsIn memory, settings.registerSlots⟩ hf
    (c.registersIn { memory } fun _ => 0)
  rw [← hsamples, Array.getElem?_toList] at hat
  refine ⟨_, hat, (Detail.coord_request _ _ _).trans (congrArg q.coord ?_)⟩
  have hinput := Context.mem_locations.1 ((shade_locations h q.coordLocation).2 ⟨q, hmem, rfl⟩)
  show c.inputsIn memory q.coordLocation = _
  unfold Context.inputsIn
  rw [hinput]
  rfl

end Lowering

/-- A lifted module has one input for each location that a query names, declared and located once, and
its entry point lists them in ascending order of their locations. Queries of declared samplers sample
at the contents of their own inputs. The key must not take the program for one lifted before. -/
theorem lift_interface {κ : Type} [DecidableEq κ] {key : Program → κ} {l l' : Lifter κ} {p : Program}
    {m : LiftedModule} {earlier : List Program} (hl : l.Lifted key earlier)
    (hkey : l.settings.cacheModules = true → ∀ q ∈ earlier, key q = key p → q = p)
    (h : l.lift key p = .ok (.ok m, l')) :
    ∃ stats c locations input, shade l.settings p = .ok (.ok stats, c) ∧
      m.words = c.close.words ∧ locations.Pairwise (· < ·) ∧
      (∀ location, location ∈ locations ↔ ∃ q ∈ p.queries, q.coordLocation = location) ∧
      c.close.Interface c.main locations input ∧
      ∀ texels memory, c.close.Typed memory →
        ∃ m', Machine.run c.close texels { memory } = (m', none) ∧
          ∀ (n : Nat) (q : QueryDesc),
            (p.queries.filter fun q => p.declares q.sampler)[n]? = some q →
            ∃ call : SampleCall, m'.samples[n]? = some call ∧ call.coord =
              q.coord (({ memory } : Machine).read c.close (input q.coordLocation)).bits := by
  obtain ⟨stats, c, hdefect, hshade, rfl⟩ := hl.loweredFrom hkey h
  exact ⟨stats, c, c.inputs.keys, c.input, hshade, c.words_finish, c.locations_ascending,
    shade_locations hshade, shade_interface hdefect hshade,
    fun texels _ hm => query_of_run hdefect hshade texels hm⟩

/-- Two queries of one location, and one whose sampler is not declared. -/
def sharedInputProgram : Program where
  samplers := [{ index := 2, componentCount := 1, encoding := .f32 }]
  queries := [
    { sampler := 2, coordLocation := 5, destOffset := 0 },
    { sampler := 9, coordLocation := 3, destOffset := 1 },
    { sampler := 2, coordLocation := 5, destOffset := 2, divisorLane := some 2 }]
  instructions := []

/-- The programs that a lifter has lifted before may agree with each other on the key. -/
theorem lift_interface_sharedInputProgram : ∃ m input, ∃ (l l' : Lifter Nat) (c : Context),
    l.Lifted (fun p => p.queries.length) [gradientProgram] ∧ l.settings.cacheModules = true ∧
    l.lift (fun p => p.queries.length) sharedInputProgram = .ok (.ok m, l') ∧
    m.words = c.close.words ∧ c.close.Interface c.main [3, 5] input := by
  obtain ⟨c₁, hfirst⟩ := exists_shade_gradientProgram
  have hshades : (shade {} sharedInputProgram).toOption.map (·.1) = some (.ok { queries := 2 }) := by
    decide +kernel
  obtain ⟨⟨_, c₀⟩, hshade, rfl⟩ := exists_of_toOption_map hshades
  let l : Lifter Nat := Lifter.remember {} 1 c₁.finish
  have hl : l.Lifted (fun p => p.queries.length) [gradientProgram] :=
    .lift (.start {}) (Lifter.lift_of_shade (by decide) (by rfl) hfirst)
  have hlift : l.lift (fun p => p.queries.length) sharedInputProgram =
      .ok (.ok c₀.finish, l.remember 3 c₀.finish) :=
    Lifter.lift_of_shade (by decide) (by rfl) hshade
  obtain ⟨stats, c, locations, input, -, hwords, hascending, hmem, hinterface, -⟩ :=
    lift_interface hl (fun _ => by decide) hlift
  -- an ascending list is known from its members
  have hlocations : locations = [3, 5] := by
    have hperm : locations.Perm [3, 5] := by
      refine (List.perm_ext_iff_of_nodup (hascending.imp UInt32.ne_of_lt) (by decide)).2 ?_
      intro location
      rw [hmem, ← List.mem_map]
      show location ∈ [5, 3, 5] ↔ location ∈ [3, 5]
      grind
    exact hperm.eq_of_pairwise (fun _ _ _ _ hlt hgt => absurd hgt (UInt32.lt_asymm hlt)) hascending
      (by decide)
  exact ⟨_, input, l, _, c, hl, rfl, hlift, hwords, hlocations ▸ hinterface⟩

end TextureLift
