import TextureLift.Proofs.Lowering.Shader

/-!
# The frame of a module

A module starts with the import, the samplers and the first two instructions of its function, and
ends with the last two and the entry point. Between them stands the code of the program, which is
straight-line:

    function, label, code, return, end of function

The machine passes over the frame, so that what a module does is what its code does.
-/

namespace TextureLift

open Builder Build Discipline

namespace Environment

variable {e : Environment} {F : Fault → Prop} {b b' : Builder}

/-! ## The empty module -/

theorem sound_empty : e.Sound {} := by
  refine ⟨wellFormed_empty, fun _ => ⟨rfl, fun id t h => ?_, fun id v h => ?_, fun _ _ => rfl,
    fun id t v h => ?_, fun before i after h => ?_⟩⟩
  · cases eq_plain_of_empty h
  · have h' : (∅ : WordMap Value)[id.word]? = some v := h
    simp at h'
  · cases eq_plain_of_empty h
  · cases before <;> cases h

/-! ## Opening the function -/

/-- Actions that keep the module sound. -/
def opening (e : Environment) (F : Fault → Prop) : Discipline Builder where
  keeps := e.Sound
  leads := Extends
  faults := F
  refl := Extends.refl
  trans := Extends.trans

theorem opening_of_declaring {α : Type} {a : Build α} {Q : α → Builder → Prop}
    (h : (e.declaring F).Ensures a b Q) :
    (e.opening F).Ensures a b fun v b' => b'.body = b.body ∧ Q v b' :=
  (h.imp fun _ _ hd hQ => ⟨hd.same, hQ⟩).weaken (fun h => h)
    (fun _ _ h1 h2 _ => ⟨h1, h2.grows.toExtends⟩) fun _ hf => hf

theorem frame_ensures (hF : F .idsExhausted) {i : Ref → Inst}
    (hresult : ∀ id, (i id).result = some id) (hframe : ∀ id, (i id).opcode.isFrame)
    (haccepts : b.WellFormed → ∀ id, b.Accepts (i id)) :
    (e.opening F).Ensures (frame i) b fun id b' => b'.body.toList = b.body.toList ++ [i id] := by
  by_cases hsize : b.definitions.size + 1 < UInt32.size
  · have ha : frame i b = .ok (⟨.ofNat b.definitions.size⟩,
        ({ b with definitions := b.definitions.push .plain } : Builder).append
          (i ⟨.ofNat b.definitions.size⟩)) := defineWith_of_lt .plain _ hsize
    generalize hid : (⟨.ofNat b.definitions.size⟩ : Ref) = id at ha
    generalize hb' : ({ b with definitions := b.definitions.push .plain } : Builder).append (i id) = b'
    have hpush : b'.definitions = b.definitions.push .plain := by rw [← hb']; rfl
    have hle := tableLe_push _ hpush
    have hbody : b'.body.toList = b.body.toList ++ [i id] := by
      rw [← hb']
      exact Array.toList_push
    refine Ensures.of_ok (v := id) (t := b') ?_ fun hs => ?_
    · rw [ha, ← hb']
    · have hwf : b'.WellFormed := by
        rw [← hb']
        exact hs.wellFormed.appendResult (d := .plain) ⟨hsize, by simp [Definition.refs], trivial⟩
          (haccepts hs.wellFormed id) (by rw [hresult, hid]) (.inl ⟨rfl, hframe id⟩)
      refine ⟨(hs.idle hwf hle [i id] hbody (by simpa using hframe id) fun id' d h => ?_).1,
        ⟨hle, by rw [← hb']; rfl, fun d hd => by rw [← hb']; exact hd⟩, hbody⟩
      rcases definition?_of_push hpush h with h | ⟨hid', rfl⟩
      · exact .inl h
      · exact .inr ⟨Option.eq_none_iff_forall_ne_some.2 (next_not_defined hid'), by simp⟩
  · exact Ensures.of_error (defineWith_of_not_lt .plain _ hsize) hF

/-- The first two instructions of a function. -/
def Opens (main : Ref) (code : List Inst) : Prop :=
  ∃ void type label, code =
    [⟨.function, some void, some main, [0, type]⟩, { opcode := .label, result := some label }]

theorem beginFunction_ensures (hF : F .idsExhausted) :
    (e.opening F).Ensures beginFunction b fun main b' =>
      ∃ code, Opens main code ∧ b'.body.toList = b.body.toList ++ code := by
  rw [beginFunction_eq]
  refine (opening_of_declaring (type_declares hF (by simp [TypeDecl.refs]))).bind
    fun void b₁ l₁ h₁ => ?_
  obtain ⟨hbody₁, hvoid⟩ := h₁
  refine (opening_of_declaring (type_declares hF (by simp [TypeDecl.refs, hvoid]))).bind
    fun functionType b₂ l₂ h₂ => ?_
  obtain ⟨hbody₂, htype⟩ := h₂
  have hvoid₂ := l₂.table.typeDecl hvoid
  refine (frame_ensures hF (fun _ => rfl) (fun _ => rfl) fun _ id => ⟨?_, ?_⟩).bind
    fun main b₃ l₃ hbody₃ => ?_
  · rintro t ht
    obtain rfl := Option.some.inj ht
    rw [hvoid₂]
    rfl
  · intro w hw
    obtain rfl := List.mem_singleton.1 hw
    exact .inl ⟨_, typeDecl?_eq_some.1 htype, rfl⟩
  refine (frame_ensures hF (fun _ => rfl) (fun _ => rfl) fun _ id => ⟨?_, ?_⟩).bind
    fun label b₄ _ hbody₄ => Ensures.pure _ ?_
  · intro t ht
    cases ht
  · intro w hw
    cases hw
  · refine ⟨_, ⟨void, functionType.word, label, rfl⟩, ?_⟩
    rw [hbody₄, hbody₃, hbody₂, hbody₁, List.append_assoc]
    rfl

theorem Opens.isFrame {main : Ref} {code : List Inst} (h : Opens main code) :
    ∀ i ∈ code, i.opcode.isFrame := by
  obtain ⟨void, type, label, rfl⟩ := h
  intro i hi
  simp only [List.mem_cons, List.not_mem_nil, or_false] at hi
  rcases hi with rfl | rfl <;> rfl

theorem Opens.after_eq {main : Ref} (h : Opens main b.body.toList) : e.after b = e.start := by
  unfold after Machine.run
  rw [steps_of_isFrame _ _ _ h.isFrame]
  rfl

end Environment

/-! ## Samplers -/

namespace Builder

variable {b b' : Builder} {id : Ref} {dim : ImageDim}

/-- The id is a variable that holds an image. -/
def HoldsImage (b : Builder) (id : Ref) (dim : ImageDim) : Prop :=
  ∃ t sampled image float, b.definition? id = some (.var t .uniformConstant) ∧
    b.typeDecl? t = some (.pointer .uniformConstant sampled) ∧
    b.typeDecl? sampled = some (.sampledImage image) ∧ b.typeDecl? image = some (.image float dim)

theorem HoldsImage.mono (h : b.HoldsImage id dim) (hle : TableLe b b') : b'.HoldsImage id dim := by
  obtain ⟨t, sampled, image, float, hid, ht, hsampled, himage⟩ := h
  exact ⟨t, sampled, image, float, hle.definition hid, hle.typeDecl ht, hle.typeDecl hsampled,
    hle.typeDecl himage⟩

theorem HoldsImage.exists_var (h : b.HoldsImage id dim) :
    ∃ t, b.definition? id = some (.var t .uniformConstant) := by
  obtain ⟨t, _, _, _, hid, -⟩ := h
  exact ⟨t, hid⟩

end Builder

namespace SamplerTable

variable {b b' : Builder}

/-- The image of a sampler. -/
def image (t : SamplerTable) (index : UInt32) : Ref :=
  ((t.get? index).map SamplerInfo.id).getD .none

theorem get?_insert (t : SamplerTable) (index index' : UInt32) (info : SamplerInfo) :
    (t.insert index info).get? index' = if index = index' then some info else t.get? index' :=
  WordMap.getElem?_insert t.entries index index' info

theorem clampCount_eq (count : UInt8) :
    clampCount count = if count < 1 then 1 else if 4 < count then 4 else count := by
  show (if 1 ≤ (if count ≤ 4 then count else 4) then (if count ≤ 4 then count else 4)
    else (1 : UInt8)) = _
  grind

theorem clampCount_le (count : UInt8) : clampCount count ≤ 4 := by
  rw [clampCount_eq]
  grind

/-- The table has the last sampler of each index. The variables of the module hold images of the
dimensions of the samplers and are bound to the indices. -/
structure Lists (samplers : List SamplerDesc) (t : SamplerTable) (b : Builder) : Prop where
  entries : ∀ index, t.get? index = (samplers.reverse.find? (·.index = index)).map fun d =>
    ⟨t.image index, clampCount d.componentCount, d.encoding, d.dimension⟩
  images : ∀ index info, t.get? index = some info →
    b.HoldsImage info.id (imageDim info.dimension)
  bound : ∀ index info, t.get? index = some info →
    ⟨info.id, Decoration.binding, index⟩ ∈ b.decorations

theorem lists_empty : Lists [] {} b := by
  have hget : ∀ index, ({} : SamplerTable).get? index = none := fun index => by simp [get?]
  refine ⟨hget, fun index info h => ?_, fun index info h => ?_⟩
  · rw [hget] at h
    cases h
  · rw [hget] at h
    cases h

theorem Lists.mono {samplers : List SamplerDesc} {t : SamplerTable} (h : Lists samplers t b)
    (hle : b.Extends b') : Lists samplers t b' := by
  refine ⟨h.entries, fun index info hget => ?_, fun index info hget => ?_⟩
  · exact (h.images index info hget).mono hle.table
  · exact hle.decorated _ (h.bound index info hget)

theorem Lists.insert {samplers : List SamplerDesc} {t : SamplerTable} (h : Lists samplers t b)
    (hle : b.Extends b') {d : SamplerDesc} {id : Ref}
    (hid : b'.HoldsImage id (imageDim d.dimension))
    (hbound : ⟨id, Decoration.binding, d.index⟩ ∈ b'.decorations) :
    Lists (samplers ++ [d])
      (t.insert d.index ⟨id, clampCount d.componentCount, d.encoding, d.dimension⟩) b' := by
  constructor
  · intro index
    unfold image
    rw [get?_insert, List.reverse_append, List.reverse_singleton, List.singleton_append,
      List.find?_cons]
    by_cases hi : d.index = index
    · rw [if_pos hi, decide_eq_true hi]
      rfl
    · rw [if_neg hi, decide_eq_false hi]
      exact h.entries index
  · intro index info hget
    rw [get?_insert] at hget
    split at hget
    · obtain rfl := Option.some.inj hget
      exact hid
    · exact (h.mono hle).images index info hget
  · intro index info hget
    rw [get?_insert] at hget
    split at hget
    · rename_i hi
      obtain rfl := Option.some.inj hget
      rw [← hi]
      exact hbound
    · exact (h.mono hle).bound index info hget

end SamplerTable

namespace Environment

variable {e : Environment} {F : Fault → Prop} {b b' : Builder}

open SamplerTable

theorem declareOne_declares (hF : F .idsExhausted) {float : Ref}
    (hfloat : b.typeDecl? float = some ScalarKind.f32.decl) (d : SamplerDesc) :
    (e.declaring F).Ensures (declareOne float d) b fun info b' =>
      b'.HoldsImage info.id (imageDim d.dimension) ∧
        ⟨info.id, Decoration.binding, d.index⟩ ∈ b'.decorations ∧
        info = ⟨info.id, clampCount d.componentCount, d.encoding, d.dimension⟩ := by
  unfold declareOne
  refine (type_declares hF (by simp [TypeDecl.refs, hfloat])).bind fun image b₁ _ himage => ?_
  refine (type_declares hF (by simp [TypeDecl.refs, himage])).bind fun sampled b₂ l₂ hsampled => ?_
  refine (variableOf_declares (s := .uniformConstant) hF
    (by rw [if_pos rfl]; exact ⟨image, hsampled⟩)).bind fun id b₃ l₃ hid => ?_
  obtain ⟨-, type, hid, htype⟩ := hid
  have hholds : b₃.HoldsImage id (imageDim d.dimension) :=
    ⟨type, sampled, image, float, hid, htype, l₃.grows.table.typeDecl hsampled,
      (l₂.trans l₃).grows.table.typeDecl himage⟩
  have hof : (b₃.typeOf? id).isSome := by
    rw [typeOf?_eq_some.2 ⟨_, hid, rfl⟩]
    rfl
  refine (decorate_declares hof).bind fun _ b₄ _ hb₄ => ?_
  refine (decorate_declares (by rw [hb₄]; exact hof)).bind fun _ b₅ _ hb₅ => ?_
  refine Ensures.pure _ ⟨?_, ?_, rfl⟩
  · rw [hb₅, hb₄]
    exact hholds
  · rw [hb₅, hb₄]
    exact Array.mem_push_of_mem _ (Array.mem_push_self)

/-- Samplers become variables, and the table lists them. -/
theorem declare_declares (hF : F .idsExhausted) (samplers : List SamplerDesc) :
    (e.declaring F).Ensures (declare samplers) b fun t b' => Lists samplers t b' := by
  unfold declare
  refine (type_declares (e := e) hF (by simp [TypeDecl.refs])).bind fun float b₁ _ hfloat => ?_
  have hstart : b₁.typeDecl? float = some ScalarKind.f32.decl ∧ Lists [] {} b₁ :=
    ⟨hfloat, lists_empty⟩
  refine (Ensures.foldlM (R := fun past t b => b.typeDecl? float = some ScalarKind.f32.decl ∧
    Lists past t b) samplers hstart fun past d t b₂ h₂ => ?_).imp fun t b' _ h =>
      by simpa using h.2
  obtain ⟨hf, hlists⟩ := h₂
  refine (declareOne_declares hF hf d).bind fun info b₃ l₃ h₃ => Ensures.pure _ ?_
  obtain ⟨hid, hbound, hinfo⟩ := h₃
  refine ⟨l₃.grows.table.typeDecl hf, ?_⟩
  rw [hinfo]
  exact hlists.insert l₃.grows.toExtends hid hbound

end Environment

/-! ## Acceptable programs -/

namespace Program

variable {p : Program}

theorem sampler_of_no_defect (h : p.defect? = none) {d : SamplerDesc} (hd : d ∈ p.samplers) :
    SamplerTable.clampCount d.componentCount = d.componentCount := by
  have hnone := List.findSome?_eq_none_iff.1 (Option.or_eq_none_iff.1 h).1 d hd
  unfold SamplerDesc.defect? at hnone
  rw [SamplerTable.clampCount_eq]
  grind

theorem divisor_of_no_defect (h : p.defect? = none) {q : QueryDesc} (hq : q ∈ p.queries)
    {lane : UInt8} (hlane : q.divisorLane = some lane) : lane ≤ 3 := by
  obtain ⟨i, hi⟩ := List.mem_iff_getElem?.1 hq
  have hmem : (q, i) ∈ p.queries.zipIdx := List.mk_mem_zipIdx_iff_getElem?.2 hi
  have hnone := List.findSome?_eq_none_iff.1 (Option.or_eq_none_iff.1 h).2 (q, i) hmem
  simp only [QueryDesc.defect?, hlane] at hnone
  grind

/-- The table of the samplers of an acceptable program. -/
theorem tabulates_of_lists (h : p.defect? = none) {t : SamplerTable} {b : Builder}
    (hlists : SamplerTable.Lists p.samplers t b) : Launch.Tabulates p t.image t := by
  intro index
  rw [hlists.entries index]
  unfold sampler?
  cases hd : p.samplers.reverse.find? (·.index = index) with
  | none => rfl
  | some d =>
    have hmem := List.mem_reverse.1 (List.mem_of_find?_eq_some hd)
    rw [Option.map_some, Option.map_some, sampler_of_no_defect h hmem]

end Program

/-! ## Whole modules -/

/-- Lowers a program from the start, without closing the module. -/
def Lowering.shade (settings : LiftSettings) (p : Program) :
    Except Fault (Except Failure Stats × Context) := do
  lowerProgram p (← Context.start settings p.samplers)

theorem Lowering.lower_eq (settings : LiftSettings) (p : Program) :
    lower settings p = do
      let r ← shade settings p
      return r.1.map fun _ => r.2.finish := by
  unfold lower shade
  cases Context.start settings p.samplers with
  | error f => rfl
  | ok c => rfl

/-- The module with its function closed and its entry point. -/
def Context.close (c : Context) : Builder :=
  (c.builder.endFunction.addEntryPoint ⟨fragmentModel, c.main, "main", c.inputs.values⟩)
    |>.addExecutionMode ⟨c.main, originUpperLeft⟩

theorem Context.words_finish (c : Context) : c.finish.words = c.close.words :=
  rfl

theorem Context.body_close (c : Context) : c.close.body.toList =
    c.builder.body.toList ++ [{ opcode := .ret }, { opcode := .functionEnd }] := by
  simp [close, addExecutionMode, addEntryPoint, endFunction, append]

namespace Launch

open Lowering SamplerTable Environment

variable {x : Launch} {c : Context} {settings : LiftSettings} {p : Program}

/-- The context that a shader starts in. -/
structure Begins (x : Launch) (samplers : List SamplerDesc) (c : Context) : Prop where
  ready : x.Ready c
  lists : Lists samplers c.samplers c.builder
  opens : Opens c.main c.builder.body.toList
  entries : c.builder.entryPoints = #[]
  state : x.state c.toEmitter = { registers := x.registers }

/-- What a module starts with lists the samplers and opens the function. -/
theorem prologue_ensures {e : Environment} {F : Fault → Prop} (hF : F .idsExhausted)
    (samplers : List SamplerDesc) :
    (e.opening F).Ensures (do
      modify (·.addCapability Context.shaderCapability)
      let _ ← importExtSet
      modify Builder.setMemoryModel
      let table ← declare samplers
      return (table, ← beginFunction)) {} fun r b =>
        Lists samplers r.1 b ∧ Opens r.2 b.body.toList := by
  refine (opening_of_declaring (modify_declares rfl rfl rfl (fun _ h => h) fun hb => { hb with })).bind
    fun _ b₁ _ ⟨h₁, _⟩ => ?_
  refine (opening_of_declaring (importExtSet_declares hF)).bind fun _ b₂ _ ⟨h₂, _⟩ => ?_
  refine (opening_of_declaring (modify_declares rfl rfl rfl (fun _ h => h) fun hb => { hb with })).bind
    fun _ b₃ _ ⟨h₃, _⟩ => ?_
  refine (opening_of_declaring (declare_declares hF samplers)).bind
    fun table b₄ _ ⟨h₄, hlists⟩ => ?_
  refine (beginFunction_ensures hF).bind fun main b₅ l₅ ⟨code, hopens, h₅⟩ =>
    Ensures.pure _ ⟨hlists.mono l₅, ?_⟩
  rw [h₅, h₄, h₃, h₂, h₁]
  exact hopens

theorem start_begins (hslots : settings.registerSlots = x.slots) {samplers : List SamplerDesc}
    (h : Context.start settings samplers = .ok c) : x.Begins samplers c := by
  unfold Context.start at h
  obtain ⟨⟨⟨table, main⟩, b⟩, hb, h⟩ := exists_of_bind h
  obtain rfl := Except.ok.inj h
  have hensures := prologue_ensures (e := x.toEnvironment) (F := fun _ => True) trivial samplers
  obtain ⟨hsound, hextends, hlists, hopens⟩ := hensures.result sound_empty hb
  refine ⟨⟨⟨hsound, hslots, fun _ _ h => (nomatch h), fun _ _ _ h => nomatch h⟩, ?_, ?_, ?_⟩,
    hlists, hopens, hextends.entries, ?_⟩
  · intro index info hget
    refine ⟨(hlists.images index info hget).exists_var, ?_⟩
    have hentry := (hlists.entries index).symm.trans hget
    obtain ⟨d, -, rfl⟩ := Option.map_eq_some_iff.1 hentry
    exact clampCount_le d.componentCount
  · intro location id h
    simp at h
  · intro location location' id h
    simp at h
  · unfold Launch.state
    rw [hopens.after_eq]
    rfl

/-- What lowering a program comes to. -/
structure Ends (x : Launch) (p : Program) (r : Except Failure Stats) (c : Context) : Prop where
  ready : x.Ready c
  shades : ∃ c₀, x.Begins p.samplers c₀ ∧ x.Shades c₀ c
  exec : ∀ input, (∃ stats, r = .ok stats) → x.Suits input c →
    x.state c.toEmitter = p.exec (x.setting c.samplers.image input) x.registers

theorem shade_ends (hslots : settings.registerSlots = x.slots) (hp : p.defect? = none)
    {r : Except Failure Stats} (h : shade settings p = .ok (r, c)) : x.Ends p r c := by
  obtain ⟨c₀, hstart, h⟩ := exists_of_bind h
  have hbegins := start_begins hslots hstart
  have hensures := fun input => lowerProgram_ensures (F := fun _ => True) input trivial
    (.inl trivial) (Program.tabulates_of_lists hp hbegins.lists)
    (fun q hq lane hlane => Program.divisor_of_no_defect hp hq hlane) (.inl trivial)
    (fun _ _ _ _ _ _ _ _ => trivial) fun _ => hbegins.state
  obtain ⟨hready, hshades, -⟩ := (hensures fun _ => []).result hbegins.ready h
  refine ⟨hready, ⟨c₀, hbegins, hshades⟩, fun input => ?_⟩
  rw [hshades.samplers]
  exact ((hensures input).result hbegins.ready h).2.2

theorem shade_ends_blank (hp : p.defect? = none) {r : Except Failure Stats}
    (h : shade settings p = .ok (r, c)) : (blank settings.registerSlots).Ends p r c :=
  shade_ends rfl hp h

/-- The function of the module before it is closed. -/
theorem Ends.body {r : Except Failure Stats} (h : x.Ends p r c) :
    ∃ opening code, Opens c.main opening ∧ c.builder.body.toList = opening ++ code ∧
      ∀ i ∈ code, i.opcode.isCode ∧ i.Formed := by
  obtain ⟨c₀, hbegins, hshades⟩ := h.shades
  obtain ⟨code, hbody, hcode⟩ := hshades.moves.leads.grows.body
  exact ⟨_, code, hshades.main ▸ hbegins.opens, hbody, hcode⟩

/-- The values of a map, in the order of its entries. -/
theorem values_eq_map {α : Type} (m : WordMap α) : m.values = m.toList.map (·.2) := by
  obtain ⟨⟨q⟩⟩ := m
  induction q using Quotient.inductionOn with
  | h t =>
    show t.inner.values = (Std.DTreeMap.Internal.Impl.Const.toList t.inner).map (·.2)
    rw [Std.DTreeMap.Internal.Impl.values_eq_map_snd,
      Std.DTreeMap.Internal.Impl.Const.toList_eq_toListModel_map, List.map_map]
    rfl

/-- The values of a map are the values at its keys. -/
theorem exists_of_mem_values {α : Type} {m : WordMap α} {v : α} (h : v ∈ m.values) :
    ∃ key : UInt32, m[key]? = some v := by
  rw [values_eq_map] at h
  obtain ⟨⟨key, v⟩, hmem, rfl⟩ := List.mem_map.1 h
  exact ⟨key, Std.ExtTreeMap.mem_toList_iff_getElem?_eq_some.1 hmem⟩

theorem Ends.main_mem {r : Except Failure Stats} (h : x.Ends p r c) :
    c.main ∈ resultsOf c.builder.body.toList := by
  obtain ⟨opening, code, ⟨void, type, label, rfl⟩, hbody, -⟩ := h.body
  rw [hbody]
  exact mem_resultsOf.2 ⟨_, List.mem_cons_self .., rfl⟩

/-- The closed module is well formed. -/
theorem Ends.wellFormed_close {r : Except Failure Stats} (h : x.Ends p r c) :
    c.close.WellFormed := by
  have hb := h.ready.keeps.sound.wellFormed
  have hend : c.builder.endFunction.WellFormed := by
    refine (hb.append ⟨fun t ht => ?_, fun w hw => ?_⟩ rfl).append
      ⟨fun t ht => ?_, fun w hw => ?_⟩ rfl
    · cases ht
    · cases hw
    · cases ht
    · cases hw
  have hbody : c.builder.endFunction.body.toList =
      c.builder.body.toList ++ [{ opcode := .ret }, { opcode := .functionEnd }] := by
    simp [endFunction, append]
  have hmain : c.builder.endFunction.InScope c.builder.endFunction.body.toList c.main := by
    refine .inr (.inr ?_)
    rw [hbody, resultsOf_append]
    exact List.mem_append_left _ h.main_mem
  refine { hend with entries := fun e he id hid => ?_, modes := fun e he => ?_ }
  · rcases Array.mem_push.1 he with he | rfl
    · exact hend.entries e he id hid
    · rcases List.mem_cons.1 hid with rfl | hid
      · exact hmain
      · obtain ⟨location, hl⟩ := exists_of_mem_values hid
        obtain ⟨t, ht⟩ := h.ready.inputs location id hl
        exact .inl ⟨_, ht, rfl⟩
  · rcases Array.mem_push.1 he with he | rfl
    · exact hend.modes e he
    · exact hmain

/-- Closing the module changes nothing for the machine. -/
theorem Ends.sound_close {r : Except Failure Stats} (h : x.Ends p r c) :
    x.Sound c.close ∧ (x.Fits c.close → x.after c.close = x.after c.builder) := by
  refine h.ready.keeps.sound.idle h.wellFormed_close (TableLe.refl _)
    [{ opcode := .ret }, { opcode := .functionEnd }] c.body_close ?_ fun _ _ h => .inl h
  simp [Opcode.isFrame]

end Launch

end TextureLift
