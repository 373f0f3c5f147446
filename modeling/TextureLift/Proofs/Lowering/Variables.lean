import TextureLift.Proofs.Lowering.Slots

/-!
# The variables of a shader

Variables are declared in three places: samplers at the start, inputs by their location and slots of
registers by their place. Inputs are declared when they are first asked for and have one location
each. Whatever a shader is lowered from, in whatever order, its variables stay in order:
`Context.Arranged` is what every action keeps.
-/

namespace TextureLift

open Build Discipline Lowering

/-! ## Inputs -/

/-- Inputs have variables of their own, each with one location, and there are no others. -/
structure Builder.Receives (b : Builder) (inputs : WordMap Ref) : Prop where
  declared : ∀ (location : UInt32) (id : Ref), inputs[location]? = some id → b.HasVariable id .input
  listed : ∀ id t, b.definition? id = some (.var t .input) →
    ∃ location : UInt32, inputs[location]? = some id
  distinct : ∀ (location location' : UInt32) (id : Ref), inputs[location]? = some id →
    inputs[location']? = some id → location = location'
  located : ∀ d : Decoration, d.kind = Decoration.location →
    (d ∈ b.decorations.toList ↔ inputs[d.value]? = some d.target)
  once : (b.decorations.toList.filter (·.kind = Decoration.location)).Nodup

namespace Builder.Receives

variable {b b' : Builder} {inputs : WordMap Ref} {location : UInt32} {id : Ref}

/-- Growth by other variables. -/
theorem mono (h : b.Receives inputs) (hle : TableLe b b')
    (hvars : ∀ id t, b'.definition? id = some (.var t .input) →
      b.definition? id = some (.var t .input))
    (hdecorations : b'.decorations = b.decorations) : b'.Receives inputs where
  declared location id hid := (h.declared location id hid).mono hle
  listed id t hid := h.listed id t (hvars id t hid)
  distinct := h.distinct
  located := by rw [hdecorations]; exact h.located
  once := by rw [hdecorations]; exact h.once

/-- A variable for one more location. -/
theorem insert (h : b.Receives inputs) (hd : Declares id .input b b')
    (hnone : inputs[location]? = none) :
    (b'.decorate ⟨id, Decoration.location, location⟩).Receives (inputs.insert location id) := by
  have hne (l : UInt32) (hl : inputs[l]? = some id) : False := by
    obtain ⟨t, ht, -⟩ := h.declared l id hl
    rw [hd.new] at ht
    cases ht
  have hdecorations : (b'.decorate ⟨id, Decoration.location, location⟩).decorations.toList =
      b.decorations.toList ++ [⟨id, Decoration.location, location⟩] := by
    unfold decorate
    rw [Array.toList_push, hd.decorations]
  refine ⟨fun l id' hl => ?_, fun id' t hid => ?_, fun l l' id' hl hl' => ?_, fun d hkind => ?_, ?_⟩
  · rw [WordMap.getElem?_insert] at hl
    split at hl
    · obtain rfl := Option.some.inj hl
      exact hd.declared
    · exact (h.declared l id' hl).mono hd.table
  · rcases hd.vars id' t _ hid with ⟨rfl, -⟩ | hid
    · exact ⟨location, by rw [WordMap.getElem?_insert, if_pos rfl]⟩
    · obtain ⟨l, hl⟩ := h.listed id' t hid
      refine ⟨l, ?_⟩
      rw [WordMap.getElem?_insert, if_neg]
      · exact hl
      · rintro rfl
        rw [hnone] at hl
        cases hl
  · rw [WordMap.getElem?_insert] at hl hl'
    split at hl <;> split at hl'
    · rename_i heq heq'
      rw [← heq, ← heq']
    · obtain rfl := Option.some.inj hl
      exact (hne l' hl').elim
    · obtain rfl := Option.some.inj hl'
      exact (hne l hl).elim
    · exact h.distinct l l' id' hl hl'
  · rw [hdecorations, List.mem_append, List.mem_singleton, h.located d hkind, WordMap.getElem?_insert]
    obtain ⟨target, kind, value⟩ := d
    obtain rfl : kind = Decoration.location := hkind
    by_cases hl : location = value
    · subst hl
      simp [hnone, eq_comm]
    · simp [hl, Ne.symm hl]
  · rw [hdecorations, List.filter_append]
    refine List.nodup_append.2 ⟨h.once, by simp, fun d hd' d' hsingle => ?_⟩
    rintro rfl
    have heq : d = ⟨id, Decoration.location, location⟩ := by simpa using hsingle
    subst heq
    have hmem := (h.located _ rfl).1 (List.mem_of_mem_filter hd')
    exact hne location hmem

end Builder.Receives

/-! ## Contexts -/

namespace Context

variable {c c' c'' : Context}

/-- The variables of a shader are in order. -/
structure Arranged (c : Context) : Prop where
  emitter : c.toEmitter.Allotted
  samplers : ∀ index info, c.samplers.get? index = some info →
    ∃ t, c.builder.definition? info.id = some (.var t .uniformConstant)
  receives : c.builder.Receives c.inputs
  entries : c.builder.entryPoints = #[]

/-- Slots and inputs keep their variables, and the samplers are the same. -/
structure Arranges (c c' : Context) : Prop where
  sized : c'.registers.slotsPerBank = c.registers.slotsPerBank
  slots : ∀ slot id, c.registers.variableOf? slot = some id → c'.registers.variableOf? slot = some id
  table : Builder.TableLe c.builder c'.builder
  samplers : c'.samplers = c.samplers
  inputs : ∀ (location : UInt32) (id : Ref), c.inputs[location]? = some id →
    c'.inputs[location]? = some id

theorem Arranges.refl (c : Context) : c.Arranges c :=
  ⟨rfl, fun _ _ h => h, Builder.TableLe.refl _, rfl, fun _ _ h => h⟩

theorem Arranges.trans (h : c.Arranges c') (h' : c'.Arranges c'') : c.Arranges c'' where
  sized := h'.sized.trans h.sized
  slots slot id hid := h'.slots slot id (h.slots slot id hid)
  table := h.table.trans h'.table
  samplers := h'.samplers.trans h.samplers
  inputs location id hid := h'.inputs location id (h.inputs location id hid)

/-- Actions that keep the variables in order. -/
def arranging : Discipline Context where
  keeps := Arranged
  leads := Arranges
  faults _ := True
  refl := Arranges.refl
  trans := Arranges.trans

theorem Arranged.emitting (h : c.Arranged) {s : Emitter} (hs : s.Allotted)
    (hl : Emitter.Allots c.toEmitter s) : (c.emitting s).Arranged ∧ c.Arranges (c.emitting s) := by
  refine ⟨⟨hs, fun index info hget => ?_, ?_, hl.entries.trans h.entries⟩,
    hl.sized, hl.slots, hl.table, rfl, fun _ _ h => h⟩
  · obtain ⟨t, ht⟩ := h.samplers index info hget
    exact ⟨t, hl.table.definition ht⟩
  · refine h.receives.mono hl.table (fun id t hid => ?_) hl.decorations
    exact (hl.vars id t _ hid).resolve_left (by decide)

theorem lift_arranges {α : Type} {a : Emit α} {Q : α → Emitter → Prop}
    (h : Emitter.allotting.Ensures a c.toEmitter Q) :
    arranging.Ensures (liftM a) c fun v c' => ∃ s, c' = c.emitting s ∧ Q v s :=
  Launch.lift_emit h (fun hk => hk.emitter) (fun _ _ => trivial) fun _ hk hs hl => hk.emitting hs hl

/-- The input of a location, declared on first use. -/
theorem exists_of_inputAt {location : UInt32} {id : Ref} (h : inputAt location c = .ok (id, c')) :
    c.inputs[location]? = some id ∧ c' = c ∨
    c.inputs[location]? = none ∧ ∃ vec b₁ b, floatVectorType 4 c.builder = .ok (vec, b₁) ∧
      variableOf .input vec b₁ = .ok (id, b) ∧
      c' = { c with
        builder := b.decorate ⟨id, Decoration.location, location⟩
        inputs := c.inputs.insert location id } := by
  unfold inputAt at h
  rw [get_bind_run] at h
  cases hl : c.inputs[location]? with
  | some id' =>
    rw [hl] at h
    obtain ⟨rfl, rfl⟩ := Prod.mk.inj (Except.ok.inj h)
    exact .inl ⟨rfl, rfl⟩
  | none =>
    rw [hl] at h
    obtain ⟨vec, c₁, h₁, h⟩ := exists_of_run_bind h
    obtain ⟨s₁, hs₁, rfl⟩ := Lower.exists_of_lift h₁
    obtain ⟨b₁, hvec, rfl⟩ := Emit.exists_of_lift hs₁
    obtain ⟨id', c₂, h₂, h⟩ := exists_of_run_bind h
    obtain ⟨s₂, hs₂, rfl⟩ := Lower.exists_of_lift h₂
    obtain ⟨b₂, hid, rfl⟩ := Emit.exists_of_lift hs₂
    obtain ⟨rfl, rfl⟩ := Prod.mk.inj (Except.ok.inj h)
    exact .inr ⟨rfl, vec, b₁, b₂, hvec, hid, rfl⟩

theorem inputAt_arranges {location : UInt32} :
    arranging.Ensures (inputAt location) c fun id c' => c'.inputs[location]? = some id := by
  refine Ensures.of_results (fun _ => trivial) fun id c' h hk => ?_
  rcases exists_of_inputAt h with ⟨hid, rfl⟩ | ⟨hnone, vec, b₁, b, hvec, hvar, rfl⟩
  · exact ⟨hk, Arranges.refl _, hid⟩
  · obtain ⟨hb, hd⟩ := Builder.fourFloats_declares (by decide) hk.emitter.size hvec hvar
    refine ⟨⟨⟨hb, fun slot id' hid => ?_, hk.emitter.injective, fun i hi => ?_⟩,
      fun index info hget => ?_, hk.receives.insert hd hnone, hd.entries.trans hk.entries⟩,
      ⟨rfl, fun _ _ h => h, hd.table, rfl, fun l id' hl => ?_⟩, ?_⟩
    · exact ⟨(hk.emitter.slots slot id' hid).1, (hk.emitter.slots slot id' hid).2.mono hd.table⟩
    · exact hk.emitter.stores i (hd.stores ▸ hi)
    · obtain ⟨t, ht⟩ := hk.samplers index info hget
      exact ⟨t, hd.table.definition ht⟩
    · rw [WordMap.getElem?_insert, if_neg]
      · exact hl
      · rintro rfl
        rw [hnone] at hl
        cases hl
    · rw [WordMap.getElem?_insert, if_pos rfl]

theorem resolveQuery_arranges {d : QueryDesc} :
    arranging.Ensures (resolveQuery d) c fun _ c' => (c'.inputs[d.coordLocation]?).isSome := by
  unfold resolveQuery
  refine inputAt_arranges.bind fun id c₁ _ hid => Ensures.get_bind (Ensures.pure _ ?_)
  rw [hid]
  rfl

theorem emitQueries_arranges (queries : List Query) :
    arranging.Ensures (emitQueries queries) c fun _ _ => True := by
  induction queries generalizing c with
  | nil => exact Ensures.pure _ trivial
  | cons q queries ih =>
    unfold emitQueries
    refine Ensures.get_bind ?_
    cases c.samplers.get? q.sampler with
    | none => exact ih
    | some info =>
      exact (lift_arranges Emitter.emitQuery_allots).bind fun _ _ _ _ => ih.bind fun _ _ _ _ =>
        Ensures.pure _ trivial

theorem lowerSample_arranges {i : Sample} :
    arranging.Ensures (lowerSample i).run c fun _ _ => True := by
  intro hk
  cases hv : plan c.samplers c.registers i with
  | error f =>
    rw [lowerSample_run, hv]
    trivial
  | ok v =>
    rcases plan_result hv with ⟨info, hget, heffect, rfl⟩ | ⟨hno, -⟩
    · have hemit := Emitter.emitSample_allots info heffect hk.emitter
      rw [lowerSample_of_passes hv]
      cases he : (emitSample (planOf i info)).run c.toEmitter with
      | error f => trivial
      | ok r =>
        rw [he] at hemit
        obtain ⟨hs, hl, -⟩ := hemit
        have hlisted : (c.listed (planOf i info).line.text).Arranged :=
          ⟨hk.emitter, hk.samplers, hk.receives, hk.entries⟩
        obtain ⟨hk', hl'⟩ := hlisted.emitting hs hl
        exact ⟨hk', ⟨hl'.sized, hl'.slots, hl'.table, rfl, hl'.inputs⟩, trivial⟩
    · rw [lowerSample_run, hv]
      cases v with
      | fails failure => exact ⟨hk, Arranges.refl c, trivial⟩
      | skips reason => exact ⟨hk, Arranges.refl c, trivial⟩
      | passes plan => exact absurd rfl (hno plan)

theorem lowerWord_arranges {word : UInt64} :
    arranging.Ensures (lowerWord word).run c fun _ _ => True := by
  unfold lowerWord
  cases Sample.decode? word with
  | none => exact Ensures.pure _ trivial
  | some i => exact lowerSample_arranges

theorem lowerWordsFrom_arranges (words : List UInt64) (position : Nat) :
    arranging.Ensures (lowerWordsFrom position words) c fun _ _ => True := by
  induction words generalizing c position with
  | nil => exact Ensures.pure _ trivial
  | cons word words ih =>
    unfold lowerWordsFrom
    refine lowerWord_arranges.bind fun outcome c₁ _ _ => Ensures.get_bind ?_
    split
    · exact Ensures.pure _ trivial
    · refine Ensures.bind (P := fun _ _ => True) ?_ fun _ _ _ _ => ih _
      exact Ensures.of_ok rfl fun hk => ⟨⟨hk.emitter, hk.samplers, hk.receives, hk.entries⟩,
        ⟨rfl, fun _ _ h => h, Builder.TableLe.refl _, rfl, fun _ _ h => h⟩, trivial⟩

theorem lowerWords_arranges (words : List UInt64) :
    arranging.Ensures (lowerWords words) c fun _ _ => True :=
  (lowerWordsFrom_arranges words 0).bind fun _ _ _ _ => Ensures.get_bind (Ensures.pure _ trivial)

/-- A program has an input at the location of each of its queries. -/
theorem lowerProgram_arranges (p : Program) : arranging.Ensures (lowerProgram p) c
    fun _ c' => ∀ q ∈ p.queries, (c'.inputs[q.coordLocation]?).isSome := by
  have hlasts {q : QueryDesc} {c₁ c₂ : Context} (hl : c₁.Arranges c₂)
      (hq : (c₁.inputs[q.coordLocation]?).isSome) : (c₂.inputs[q.coordLocation]?).isSome := by
    obtain ⟨id, hid⟩ := Option.isSome_iff_exists.1 hq
    exact Option.isSome_of_eq_some (hl.inputs _ id hid)
  unfold lowerProgram
  refine (Ensures.mapM (R := fun q _ c' => (c'.inputs[q.coordLocation]?).isSome) p.queries
    (fun _ _ _ _ => hlasts) fun _ _ _ _ => resolveQuery_arranges).bind fun queries c₁ _ h₁ => ?_
  have hflip : List.Forall₂ (fun _ q => (c₁.inputs[q.coordLocation]?).isSome) queries p.queries :=
    h₁.flip
  have hinputs := forall_of_forall₂ hflip
  refine (emitQueries_arranges queries).bind fun fetched c₂ l₂ _ => ?_
  refine Ensures.bind (P := fun _ c₃ => c₃.inputs = c₂.inputs) ?_ fun _ c₃ _ h₃ => ?_
  · exact Ensures.of_ok rfl fun hk => ⟨⟨hk.emitter, hk.samplers, hk.receives, hk.entries⟩,
      ⟨rfl, fun _ _ h => h, Builder.TableLe.refl _, rfl, fun _ _ h => h⟩, rfl⟩
  · refine (lowerWords_arranges p.instructions).imp fun _ c₄ l₄ _ q hq => hlasts l₄ ?_
    rw [h₃]
    exact hlasts l₂ (hinputs q hq)

end Context

/-! ## The start of a shader -/

namespace Builder

variable {b b' : Builder}

/-- A module whose variables hold images, without code and locations. -/
structure Primed (b : Builder) : Prop where
  size : b.definitions.size < UInt32.size
  vars : ∀ id t s, b.definition? id = some (.var t s) → s = .uniformConstant
  stores : b.stores = []
  located : ∀ d ∈ b.decorations.toList, d.kind ≠ Decoration.location
  entries : b.entryPoints = #[]

/-- Actions that declare samplers and open the function. -/
def priming : Discipline Builder where
  keeps := Primed
  leads := TableLe
  faults _ := True
  refl := TableLe.refl
  trans := TableLe.trans

theorem primes_of_computes {α : Type} {a : Build α} {Q : α → Builder → Prop}
    (h : computing.Ensures a b Q) : priming.Ensures a b Q := by
  intro hb
  have h := h hb.size
  cases ha : a b with
  | error f => trivial
  | ok r =>
    rw [ha] at h
    obtain ⟨hsize, hl, hQ⟩ := h
    refine ⟨⟨hsize, fun id t s hid => hb.vars id t s (hl.vars id t s hid),
      hl.stores.trans hb.stores, ?_, hl.entries.trans hb.entries⟩, hl.table, hQ⟩
    rw [hl.decorations]
    exact hb.located

theorem decorate_primes {id : Ref} {kind value : UInt32} (hkind : kind ≠ Decoration.location) :
    priming.Ensures (Build.decorate id kind value) b fun _ _ => True := by
  refine Ensures.of_ok rfl fun hb => ⟨⟨hb.size, hb.vars, hb.stores, fun d hd => ?_, hb.entries⟩,
    TableLe.refl _, trivial⟩
  rcases List.mem_append.1 (Array.toList_push ▸ hd) with hd | hd
  · exact hb.located d hd
  · obtain rfl := List.mem_singleton.1 hd
    exact hkind

theorem declareOne_primes {float : Ref} (d : SamplerDesc) :
    priming.Ensures (SamplerTable.declareOne float d) b fun _ _ => True := by
  unfold SamplerTable.declareOne
  refine (primes_of_computes (type_computes _)).bind fun image b₁ _ _ => ?_
  refine (primes_of_computes (type_computes _)).bind fun sampled b₂ _ hsampled => ?_
  refine Ensures.bind (P := fun _ _ => True) ?_ fun id b₃ _ _ =>
    (decorate_primes (by decide)).bind fun _ _ _ _ => (decorate_primes (by decide)).bind
      fun _ _ _ _ => Ensures.pure _ trivial
  · refine Ensures.of_results (fun _ => trivial) fun id b' h hb => ?_
    obtain ⟨hsize, hd⟩ := variableOf_declares hb.size (by rw [if_pos rfl]; exact ⟨image, hsampled⟩) h
    refine ⟨⟨hsize, fun id' t s hid => ?_, hd.stores.trans hb.stores, ?_, hd.entries.trans hb.entries⟩,
      hd.table, trivial⟩
    · exact (hd.vars id' t s hid).elim And.right (hb.vars id' t s)
    · rw [hd.decorations]
      exact hb.located

theorem declare_primes (samplers : List SamplerDesc) :
    priming.Ensures (SamplerTable.declare samplers) b fun _ _ => True := by
  unfold SamplerTable.declare
  refine (primes_of_computes (type_computes _)).bind fun float b₁ _ _ => ?_
  exact @Ensures.foldlM _ _ _ _ _ _ (fun _ _ _ => True) samplers [] _ trivial fun _ d _ _ _ =>
    (declareOne_primes d).bind fun _ _ _ _ => Ensures.pure _ trivial

theorem primed_empty : Primed {} where
  size := by decide
  vars id t s h := by cases eq_plain_of_empty h
  stores := rfl
  located d h := by cases h
  entries := rfl

theorem Primed.receives (h : b.Primed) : b.Receives ∅ := by
  have hnone (location : UInt32) : (∅ : WordMap Ref)[location]? = none := by simp
  refine ⟨fun l id hl => ?_, fun id t hid => ?_, fun l l' id hl => ?_, fun d hkind => ?_, ?_⟩
  · rw [hnone] at hl
    cases hl
  · cases h.vars id t _ hid
  · rw [hnone] at hl
    cases hl
  · rw [hnone]
    exact ⟨fun hd => absurd hkind (h.located d hd), fun hd => by cases hd⟩
  · rw [List.filter_eq_nil_iff.2 fun d hd => by simpa using h.located d hd]
    exact List.nodup_nil

end Builder

namespace Context

variable {c c' : Context} {settings : LiftSettings} {samplers : List SamplerDesc}

theorem prologue_primes (samplers : List SamplerDesc) : Builder.priming.Ensures (do
    modify (·.addCapability shaderCapability)
    let _ ← importExtSet
    modify Builder.setMemoryModel
    let table ← SamplerTable.declare samplers
    return (table, ← beginFunction) : Build (SamplerTable × Ref)) {} fun _ _ => True := by
  have hedit {f : Builder → Builder} (hf : Computes (modify f)) {b : Builder} :
      Builder.priming.Ensures (modify f) b fun _ _ => True := Builder.primes_of_computes (hf b)
  refine (hedit (.edit ?_ ?_ ?_ ?_)).bind fun _ _ _ _ => ?_
  iterate 4 exact fun _ => rfl
  refine (Builder.primes_of_computes (Computes.importExtSet _)).bind fun _ _ _ _ => ?_
  refine (hedit (.edit ?_ ?_ ?_ ?_)).bind fun _ _ _ _ => ?_
  iterate 4 exact fun _ => rfl
  refine (Builder.declare_primes samplers).bind fun _ _ _ _ => ?_
  exact (Builder.primes_of_computes (Computes.beginFunction _)).bind fun _ _ _ _ =>
    Ensures.pure _ trivial

/-- A shader starts with its samplers alone. -/
theorem start_arranged (h : start settings samplers = .ok c) :
    c.Arranged ∧ c.registers = { slotsPerBank := settings.registerSlots } ∧ c.inputs = ∅ := by
  have hlists := (Launch.start_begins (x := Launch.blank settings.registerSlots) rfl h).lists
  unfold start at h
  obtain ⟨⟨⟨table, main⟩, b⟩, hb, h⟩ := exists_of_bind h
  obtain rfl := Except.ok.inj h
  obtain ⟨hprimed, -, -⟩ := (prologue_primes samplers).result Builder.primed_empty hb
  refine ⟨⟨⟨hprimed.size, fun _ _ h => ?_, fun _ _ _ h => ?_, ?_⟩, fun index info hget =>
    (hlists.images index info hget).exists_var, hprimed.receives,
    hprimed.entries⟩, rfl, rfl⟩
  · cases h
  · cases h
  · show ∀ i ∈ b.stores, _
    rw [hprimed.stores]
    simp

/-- The variables of a program are in order, with an input for each query. -/
theorem shade_arranged {p : Program} {r : Except Failure Stats} (h : shade settings p = .ok (r, c)) :
    c.Arranged ∧ ∀ q ∈ p.queries, (c.inputs[q.coordLocation]?).isSome := by
  obtain ⟨c₀, hstart, h⟩ := exists_of_bind h
  obtain ⟨hk, -, hqueries⟩ := (lowerProgram_arranges p).result (start_arranged hstart).1 h
  exact ⟨hk, hqueries⟩

/-! ## Any use -/

/-- One use of the context of a shader, with whatever ids. -/
inductive Use where
  | sample (s : Sample)
  | words (words : List UInt64)
  | input (location : UInt32)
  | resolve (d : QueryDesc)
  | queries (queries : List Query)
  | normalize (coord : Coord)
  | fetch (texture : Ref) (coord : Coord) (dest : Encoding) (lod : FetchLod)
  deriving DecidableEq, Repr

/-- What a use does. Instructions that fail do not end it. -/
def Use.run : Use → Lower Unit
  | sample s => discard (lowerSample s).run
  | words ws => discard (lowerWords ws)
  | input location => discard (inputAt location)
  | resolve d => discard (resolveQuery d)
  | queries qs => discard (emitQueries qs)
  | normalize coord => discard (liftM (normalizeCoord coord) : Lower Ref)
  | fetch texture coord dest lod => discard (liftM (Lowering.fetch texture coord dest lod) : Lower Ref)

theorem discard_arranges {α : Type} {a : Lower α} {Q : α → Context → Prop}
    (h : arranging.Ensures a c Q) : arranging.Ensures (discard a) c fun _ _ => True :=
  h.bind fun _ _ _ _ => Ensures.pure () trivial

theorem Use.run_arranges (u : Use) : arranging.Ensures u.run c fun _ _ => True := by
  cases u with
  | sample s => exact discard_arranges lowerSample_arranges
  | words ws => exact discard_arranges (lowerWords_arranges ws)
  | input location => exact discard_arranges inputAt_arranges
  | resolve d => exact discard_arranges resolveQuery_arranges
  | queries qs => exact discard_arranges (emitQueries_arranges qs)
  | normalize coord =>
    exact discard_arranges (lift_arranges (Emitter.lift_allots (.normalizeCoord coord)))
  | fetch texture coord dest lod =>
    exact discard_arranges (lift_arranges (Emitter.lift_allots (.fetch texture coord dest lod)))

theorem uses_arrange (uses : List Use) : arranging.Ensures (uses.forM Use.run) c fun _ _ => True := by
  induction uses generalizing c with
  | nil => exact Ensures.pure _ trivial
  | cons u uses ih => exact u.run_arranges.bind fun _ _ _ _ => ih

theorem exists_of_uses_append {before after : List Use} {c₀ : Context}
    (h : (before ++ after).forM Use.run c₀ = .ok ((), c)) :
    ∃ c₁, before.forM Use.run c₀ = .ok ((), c₁) ∧ after.forM Use.run c₁ = .ok ((), c) := by
  obtain ⟨_, c₁, h₁, h₂⟩ := exists_of_run_bind ((congrFun List.forM_append c₀).symm.trans h)
  exact ⟨c₁, h₁, h₂⟩

/-- Whatever a context is used for, its slots lie within the banks and have private variables of four
floats, distinct from each other and from samplers and inputs; they keep them for good, and stores go
to slots of the primary window alone. -/
theorem uses_slots_in_order {uses : List Use} {c₀ : Context} (h₀ : start settings samplers = .ok c₀)
    (h : uses.forM Use.run c₀ = .ok ((), c)) :
    (∀ slot id, c.registers.variableOf? slot = some id →
      slot.Fits settings.registerSlots ∧
      (∃ t vec, c.builder.definition? id = some (.var t .priv) ∧
        c.builder.typeDecl? t = some (.pointer .priv vec) ∧ c.builder.LaneType vec .f32 4) ∧
      (∀ index info, c.samplers.get? index = some info → info.id ≠ id) ∧
      ∀ location : UInt32, c.inputs[location]? ≠ some id) ∧
    (∀ slot slot' id, c.registers.variableOf? slot = some id →
      c.registers.variableOf? slot' = some id → slot = slot') ∧
    (∀ i ∈ c.builder.body.toList, i.opcode = .store → Launch.ToPrimary c.registers i) ∧
    ∀ before after, uses = before ++ after → ∃ c₁, before.forM Use.run c₀ = .ok ((), c₁) ∧
      ∀ slot id, c₁.registers.variableOf? slot = some id →
        c.registers.variableOf? slot = some id := by
  obtain ⟨hk₀, hregisters, -⟩ := start_arranged h₀
  obtain ⟨hk, hl, -⟩ := (uses_arrange uses).result hk₀ h
  have hsized : c.registers.slotsPerBank = settings.registerSlots := by rw [hl.sized, hregisters]
  refine ⟨fun slot id hid => ?_, hk.emitter.injective, fun i hi hop => ?_,
    fun before after hsplit => ?_⟩
  · obtain ⟨hfits, t, ht, vec, hpointer, hvec⟩ := hk.emitter.slots slot id hid
    refine ⟨hsized ▸ hfits, ⟨t, vec, ht, hpointer, hvec⟩, fun index info hget => ?_,
      fun location hl => ?_⟩
    -- variables of different storage classes are different
    · rintro rfl
      obtain ⟨t', ht'⟩ := hk.samplers index info hget
      rw [ht] at ht'
      cases ht'
    · obtain ⟨t', ht', -⟩ := hk.receives.declared location id hl
      rw [ht] at ht'
      cases ht'
  · exact hk.emitter.stores i (List.mem_filter.2 ⟨hi, by simpa using hop⟩)
  · subst hsplit
    obtain ⟨c₁, h₁, h₂⟩ := exists_of_uses_append h
    obtain ⟨hk₁, -, -⟩ := (uses_arrange before).result hk₀ h₁
    obtain ⟨-, hl₁, -⟩ := (uses_arrange after).result hk₁ h₂
    exact ⟨c₁, h₁, hl₁.slots⟩

/-- Samples with gradients from both windows, and coordinates that are no ids of the module. -/
def strayUses : List Use :=
  [.sample { dimension := 2, lodMode := 3, samplerIndex := 3, samplerBank := 3, destIndex := 5 },
    .normalize ⟨⟨999⟩, .u8⟩, .input 4, .resolve { sampler := 9, coordLocation := 4, destOffset := 2 },
    .queries [⟨6, ⟨⟨998⟩, .s16⟩, none, .f32, 2, 1, none⟩]]

/-- A sampler of three dimensions. -/
def strayStart : Except Fault Context :=
  start { registerSlots := 4 } [{ index := 6, componentCount := 2, encoding := .f32, dimension := 3 }]

theorem uses_slots_in_order_strayUses : ∃ c₀ c id, strayStart = .ok c₀ ∧
    strayUses.forM Use.run c₀ = .ok ((), c) ∧
    c.registers.variableOf? ⟨.temp, Window.alternate, 0⟩ = some id ∧ c.builder.stores.length = 3 ∧
    Slot.Fits 4 ⟨.temp, Window.alternate, 0⟩ ∧
    ∀ i ∈ c.builder.body.toList, i.opcode = .store → Launch.ToPrimary c.registers i := by
  have hruns : (strayStart >>= strayUses.forM Use.run).toOption.map (fun r =>
      (r.2.registers.variableOf? ⟨.temp, Window.alternate, 0⟩, r.2.builder.stores.length)) =
      some (some ⟨29⟩, 3) := by
    decide +kernel
  obtain ⟨⟨_, c⟩, hrun, hparts⟩ := exists_of_toOption_map hruns
  obtain ⟨hslot, hstores⟩ := Prod.mk.inj hparts
  obtain ⟨c₀, h₀, h⟩ := exists_of_bind hrun
  obtain ⟨hslots, -, hprimary, -⟩ := uses_slots_in_order h₀ h
  exact ⟨c₀, c, ⟨29⟩, h₀, h, hslot, hstores, (hslots _ _ hslot).1, hprimary⟩

end Context

end TextureLift
