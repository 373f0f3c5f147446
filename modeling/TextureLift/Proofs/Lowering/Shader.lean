import TextureLift.Proofs.Lowering.Sample
import TextureLift.Shader.Lift

/-!
# The code of whole programs

Lowering keeps the context of a shader in order: samplers are images, inputs are inputs, and the
registers are those of a launch. What the code of a program does to the registers and requests is
what the program means:

    x.state after lowering p  =  p.exec (x.setting image input) x.registers

as long as no instruction has ended the lowering.
-/

namespace TextureLift

namespace Launch

open Builder Build Discipline Environment Lowering Number

variable {x : Launch} {F : Fault → Prop} {c c' c'' : Context}

/-! ## Contexts -/

/-- Samplers and inputs are variables of the module. -/
structure Ready (x : Launch) (c : Context) : Prop where
  keeps : x.Keeps c.toEmitter
  samplers : ∀ index info, c.samplers.get? index = some info →
    (∃ t, c.builder.definition? info.id = some (.var t .uniformConstant)) ∧ info.componentCount ≤ 4
  inputs : ∀ (location : UInt32) (id : Ref), c.inputs[location]? = some id →
    ∃ t, c.builder.definition? id = some (.var t .input)
  distinct : ∀ (location location' : UInt32) (id : Ref), c.inputs[location]? = some id →
    c.inputs[location']? = some id → location = location'

/-- Lowering adds code and inputs and keeps the rest. -/
structure Shades (x : Launch) (c c' : Context) : Prop where
  moves : x.Moves c.toEmitter c'.toEmitter
  samplers : c'.samplers = c.samplers
  inputs : ∀ (location : UInt32) (id : Ref), c.inputs[location]? = some id → c'.inputs[location]? = some id
  main : c'.main = c.main

theorem Shades.refl (c : Context) : x.Shades c c :=
  ⟨Moves.refl _, rfl, fun _ _ h => h, rfl⟩

theorem Shades.trans (h : x.Shades c c') (h' : x.Shades c' c'') : x.Shades c c'' :=
  ⟨h.moves.trans h'.moves, h'.samplers.trans h.samplers,
    fun location id hid => h'.inputs location id (h.inputs location id hid), h'.main.trans h.main⟩

/-- Actions that keep the context of a shader in order. -/
def shading (x : Launch) (F : Fault → Prop) : Discipline Context where
  keeps := x.Ready
  leads := x.Shades
  faults := F
  refl := Shades.refl
  trans := Shades.trans

/-- Lowering that changes no register and requests nothing. -/
structure Pauses (x : Launch) (c c' : Context) : Prop extends Shades x c c' where
  state : x.Agrees c'.toEmitter → x.state c'.toEmitter = x.state c.toEmitter

theorem Pauses.refl (c : Context) : x.Pauses c c :=
  ⟨Shades.refl c, fun _ => rfl⟩

theorem Pauses.trans (h : x.Pauses c c') (h' : x.Pauses c' c'') : x.Pauses c c'' :=
  ⟨h.toShades.trans h'.toShades, fun ha => (h'.state ha).trans (h.state (h'.moves.agrees ha))⟩

/-- Actions that also change no register and request nothing. -/
def pausing (x : Launch) (F : Fault → Prop) : Discipline Context where
  keeps := x.Ready
  leads := x.Pauses
  faults := F
  refl := Pauses.refl
  trans := Pauses.trans

theorem shading_of_pausing {α : Type} {a : Lower α} {Q : α → Context → Prop}
    (h : (x.pausing F).Ensures a c Q) :
    (x.shading F).Ensures a c fun v c' => x.Pauses c c' ∧ Q v c' :=
  (h.imp fun _ _ hr hQ => ⟨hr, hQ⟩).weaken (fun h => h) (fun _ _ h1 h2 _ => ⟨h1, h2.toShades⟩)
    fun _ hf => hf

/-- The launch agrees with the module, and inputs have the contents that `input` gives. -/
structure Suits (x : Launch) (input : UInt32 → List UInt32) (c : Context) : Prop where
  agrees : x.Agrees c.toEmitter
  inputs : ∀ (location : UInt32) (id : Ref), c.inputs[location]? = some id → x.firstContents id = input location

theorem Shades.suits {input : UInt32 → List UInt32} (h : x.Shades c c') (hs : x.Suits input c') :
    x.Suits input c :=
  ⟨h.moves.agrees hs.agrees, fun location id hid => hs.inputs location id (h.inputs location id hid)⟩

/-- Contexts that differ in code only. -/
theorem Ready.emitting (hr : x.Ready c) {s : Emitter} (hk : x.Keeps s)
    (hm : x.Moves c.toEmitter s) : x.Ready (c.emitting s) := by
  refine ⟨hk, fun index info h => ?_, fun location id h => ?_, hr.distinct⟩
  · obtain ⟨⟨t, ht⟩, hc⟩ := hr.samplers index info h
    exact ⟨⟨t, hm.leads.grows.table.definition ht⟩, hc⟩
  · obtain ⟨t, ht⟩ := hr.inputs location id h
    exact ⟨t, hm.leads.grows.table.definition ht⟩

/-- Actions that emit code leave the rest of the context alone. -/
theorem lift_emit {α : Type} {D : Discipline Emitter} {D' : Discipline Context} {a : Emit α}
    {Q : α → Emitter → Prop} (h : D.Ensures a c.toEmitter Q)
    (hk : D'.keeps c → D.keeps c.toEmitter) (hf : ∀ f, D.faults f → D'.faults f)
    (hl : ∀ s, D'.keeps c → D.keeps s → D.leads c.toEmitter s →
      D'.keeps (c.emitting s) ∧ D'.leads c (c.emitting s)) :
    D'.Ensures (liftM a) c fun v c' => ∃ s, c' = c.emitting s ∧ Q v s := by
  intro hc
  have h1 := h (hk hc)
  cases ha : a c.toEmitter with
  | error f =>
    rw [ha] at h1
    have he : (liftM a : Lower α) c = .error f := by
      show (a c.toEmitter >>= fun r => _) = _
      rw [ha]
      rfl
    rw [he]
    exact hf f h1
  | ok r =>
    rw [ha] at h1
    have he : (liftM a : Lower α) c = .ok (r.1, c.emitting r.2) := by
      show (a c.toEmitter >>= fun r => _) = _
      rw [ha]
      rfl
    rw [he]
    obtain ⟨h2, h3⟩ := hl r.2 hc h1.1 h1.2.1
    exact ⟨h2, h3, r.2, rfl, h1.2.2⟩

theorem lift_moving {α : Type} {a : Emit α} {Q : α → Emitter → Prop}
    (h : (x.moving F).Ensures a c.toEmitter Q) :
    (x.shading F).Ensures (liftM a) c fun v c' => ∃ s, c' = c.emitting s ∧ Q v s :=
  lift_emit h (fun hr => hr.keeps) (fun _ hf => hf) fun _ hr hk hm =>
    ⟨hr.emitting hk hm, hm, rfl, fun _ _ h => h, rfl⟩

theorem lift_resting {α : Type} {a : Emit α} {Q : α → Emitter → Prop}
    (h : (x.resting F).Ensures a c.toEmitter Q) :
    (x.pausing F).Ensures (liftM a) c fun v c' => ∃ s, c' = c.emitting s ∧ Q v s :=
  lift_emit h (fun hr => hr.keeps) (fun _ hf => hf) fun _ hr hk hm =>
    ⟨hr.emitting hk hm.moves, ⟨hm.moves, rfl, fun _ _ h => h, rfl⟩, hm.same⟩

/-! ## Inputs -/

/-- The input of a location is declared on first use. -/
theorem inputAt_ensures (hF : F .idsExhausted) {location : UInt32} :
    (x.pausing F).Ensures (inputAt location) c fun id c' => c'.inputs[location]? = some id := by
  unfold inputAt
  refine Ensures.assume fun hready => Ensures.get_bind ?_
  cases hi : c.inputs[location]? with
  | some id => exact Ensures.pure _ hi
  | none =>
    refine (lift_resting (lift_quiet ((x.reckoning hF).floatVectorType_ensures 4))).bind
      fun vec c₁ l₁ h₁ => ?_
    obtain ⟨s₁, rfl, hvec, -⟩ := h₁
    refine (lift_resting (c := c.emitting s₁) (lift_quiet (quiet_of_declaring
      (variableOf_declares (s := .input) hF hvec)))).bind fun id c₂ _ h₂ => ?_
    obtain ⟨s₂, rfl, ⟨hnew, t, ht, -⟩, -⟩ := h₂
    -- inputs that are there already are in the table, which the new one was not
    have hold : ∀ (l : UInt32), c.inputs[l]? ≠ some id := by
      intro l hl
      obtain ⟨t', ht'⟩ := hready.inputs l id hl
      have hdef : s₁.builder.definition? id = some (.var t' .input) :=
        l₁.moves.leads.grows.table.definition ht'
      have hnone : s₁.builder.definition? id = none := hnew
      rw [hdef] at hnone
      cases hnone
    have hof : (s₂.builder.typeOf? id).isSome := by
      rw [typeOf?_eq_some.2 ⟨_, ht, rfl⟩]
      rfl
    refine (lift_resting (lift_quiet (quiet_of_declaring (decorate_declares hof)))).bind fun _ c₃ l₃ h₃ => ?_
    obtain ⟨s₃, rfl, -, -⟩ := h₃
    refine Ensures.of_ok (v := id)
      (t := { c.emitting s₃ with inputs := c.inputs.insert location id }) rfl
      fun hr => ⟨⟨hr.keeps, hr.samplers, fun l id' h => ?_, fun l l' id' h h' => ?_⟩,
        ⟨⟨Moves.refl _, rfl, fun l id' h => ?_, rfl⟩, fun _ => rfl⟩, ?_⟩
    · rw [WordMap.getElem?_insert] at h
      split at h
      · obtain rfl := Option.some.inj h
        exact ⟨t, l₃.moves.leads.grows.table.definition ht⟩
      · exact hr.inputs l id' h
    · rw [WordMap.getElem?_insert] at h h'
      split at h <;> split at h'
      · rename_i hl hl'
        rw [← hl, ← hl']
      · obtain rfl := Option.some.inj h
        exact absurd h' (hold l')
      · obtain rfl := Option.some.inj h'
        exact absurd h (hold l)
      · exact hready.distinct l l' id' h h'
    · rw [WordMap.getElem?_insert, if_neg]
      · exact h
      · rintro rfl
        have h' : c.inputs[location]? = some id' := h
        rw [hi] at h'
        cases h'
    · rw [WordMap.getElem?_insert, if_pos rfl]

/-- What a resolved query is, in a context. -/
def Resolved (c : Context) (q : QueryDesc) (r : Query) : Prop :=
  ∃ input, c.inputs[q.coordLocation]? = some input ∧
    r = q.resolved input (c.samplers.get? q.sampler)

theorem Resolved.mono {q : QueryDesc} {r : Query} (h : Resolved c q r) (hl : x.Shades c c') :
    Resolved c' q r := by
  obtain ⟨input, hi, hr⟩ := h
  exact ⟨input, hl.inputs _ _ hi, by rw [hl.samplers]; exact hr⟩

/-- Queries are resolved to their inputs and samplers. -/
theorem resolveQueries_ensures (hF : F .idsExhausted) (queries : List QueryDesc) :
    (x.pausing F).Ensures (queries.mapM resolveQuery) c fun rs c' =>
      List.Forall₂ (Resolved c') queries rs := by
  refine Ensures.mapM (D := x.pausing F) queries (fun _ _ _ _ hl h => h.mono hl.toShades)
    fun q _ c₁ _ => ?_
  unfold resolveQuery
  refine (inputAt_ensures hF).bind fun input c₂ _ h₂ => Ensures.get_bind ?_
  exact Ensures.pure _ ⟨input, h₂, rfl⟩

/-! ## Queries -/

section Programs

variable {p : Program} {image : UInt32 → Ref} (input : UInt32 → List UInt32)

/-- The table has the samplers of the program, with the images that `image` gives. -/
def Tabulates (p : Program) (image : UInt32 → Ref) (t : SamplerTable) : Prop :=
  ∀ index, t.get? index = (p.sampler? index).map fun d =>
    ⟨image index, d.componentCount, d.encoding, d.dimension⟩

/-- No store of a query leaves the words. -/
def QueriesInWords (c : Context) (queries : List QueryDesc) : Prop :=
  ∀ q ∈ queries, ∀ info, c.samplers.get? q.sampler = some info →
    ∀ lane ∈ (LaneMask.first info.componentCount).lanes,
      (q.dest info.encoding).InWords (.ofNat lane.val)

/-- The code of the queries does what they mean, one after the other. -/
theorem emitQueries_ensures (hF : F .idsExhausted)
    (hmul : F .overflow ∨ x.slots.toNat * 4 < UInt32.size) (hp : Tabulates p image c.samplers)
    {queries : List QueryDesc} {rs : List Query} (hrs : List.Forall₂ (Resolved c) queries rs)
    (hdiv : ∀ q ∈ queries, ∀ lane, q.divisorLane = some lane → lane ≤ 3)
    (hadd : F .overflow ∨ QueriesInWords c queries) :
    (x.shading F).Ensures (emitQueries rs) c fun _ c' => x.Suits input c' →
      x.state c'.toEmitter = queries.foldl (fun s q => q.exec (x.setting image input) p s)
        (x.state c.toEmitter) := by
  induction queries generalizing c rs with
  | nil =>
    cases hrs
    exact Ensures.pure _ fun _ => rfl
  | cons q queries ih =>
    cases hrs with
    | @cons _ r _ rs hr hrs =>
    have hdiv' := fun q' h => hdiv q' (List.mem_cons_of_mem q h)
    have hadd' : F .overflow ∨ QueriesInWords c queries :=
      hadd.imp_right fun h q' hq' => h q' (List.mem_cons_of_mem q hq')
    obtain ⟨inputId, hinput, rfl⟩ := hr
    rw [List.foldl_cons]
    unfold emitQueries
    refine Ensures.get_bind ?_
    have htable := hp q.sampler
    have hsampler : (q.resolved inputId (c.samplers.get? q.sampler)).sampler = q.sampler := rfl
    unfold QueryDesc.exec
    rw [hsampler]
    cases hq : c.samplers.get? q.sampler with
    | none =>
      rw [hq] at htable
      rw [Option.map_eq_none_iff.1 htable.symm]
      exact ih hp hrs hdiv' hadd'
    | some info =>
      rw [hq] at htable
      obtain ⟨d, hd, hinfo⟩ := Option.map_eq_some_iff.1 htable.symm
      rw [hd]
      refine Ensures.assume fun hready => ?_
      obtain ⟨⟨t, ht⟩, hcount⟩ := hready.samplers _ _ hq
      obtain ⟨t', ht'⟩ := hready.inputs _ _ hinput
      refine (lift_moving (emitQuery_moves hF hmul hcount
        (hadd.imp_right fun h => h q (List.mem_cons_self ..) info hq) ht ht'
        (hdiv q (List.mem_cons_self ..)) image input)).bind fun _ c₁ l₁ h₁ => ?_
      obtain ⟨s₁, rfl, hstate⟩ := h₁
      have hrs' : List.Forall₂ (Resolved (c.emitting s₁)) queries rs :=
        hrs.imp fun _ _ h => h.mono l₁
      refine (ih (c := c.emitting s₁) hp hrs' hdiv' hadd').bind fun n c₂ l₂ h₂ =>
        Ensures.pure _ fun hsuits => ?_
      have hsuits₁ := l₂.suits hsuits
      rw [h₂ hsuits]
      show List.foldl _ (x.state s₁) _ = _
      rw [hstate hsuits₁.agrees, (l₁.suits hsuits₁).inputs _ _ hinput, ← hinfo]
      rfl

/-! ## Instructions -/

/-- Instructions that have no sampler or do not take effect mean nothing. -/
theorem exec_eq_self (hp : Tabulates p image c.samplers) {i : Sample}
    (h : c.samplers.get? i.samplerNumber = none ∨ i.takesEffect x.slots = false)
    (s : ShaderState) : i.exec (x.setting image input) p s = s := by
  unfold Sample.exec
  have htable := hp i.samplerNumber
  rcases h with h | h
  · rw [h] at htable
    rw [Option.map_eq_none_iff.1 htable.symm]
  · cases p.sampler? i.samplerNumber with
    | none => rfl
    | some d =>
      show (if i.takesEffect x.slots = true then _ else s) = s
      rw [h]
      rfl

/-- The code of a sample instruction does what it means, and none does nothing. -/
theorem lowerSample_ensures (hF : F .idsExhausted)
    (hmul : F .overflow ∨ x.slots.toNat * 4 < UInt32.size) (hp : Tabulates p image c.samplers)
    {i : Sample} (hplan : ∀ f, plan c.samplers c.registers i = .error f → F f) :
    (x.shading F).Ensures (lowerSample i).run c fun _ c' => x.Suits input c' →
      x.state c'.toEmitter = i.exec (x.setting image input) p (x.state c.toEmitter) := by
  intro hready
  have hslots : c.registers.slotsPerBank = x.slots := hready.keeps.slots
  cases hv : plan c.samplers c.registers i with
  | error f =>
    rw [lowerSample_run, hv]
    exact hplan f hv
  | ok v =>
    rcases plan_result hv with ⟨info, hget, heffect, rfl⟩ | ⟨hno, hcase⟩
    · rw [hslots] at heffect
      obtain ⟨⟨t, ht⟩, hcount⟩ := hready.samplers _ _ hget
      have hemit := emitSample_succeeds hF hmul heffect hcount ht image input hready.keeps
      rw [lowerSample_of_passes hv]
      cases he : (emitSample (planOf i info)).run c.toEmitter with
      | error f =>
        rw [he] at hemit
        exact hemit
      | ok r =>
        rw [he] at hemit
        obtain ⟨r, emitter⟩ := r
        obtain ⟨hk, hm, _, -, hstate⟩ := hemit
        have hlisted : x.Ready (c.listed (planOf i info).line.text) :=
          ⟨hready.keeps, hready.samplers, hready.inputs, hready.distinct⟩
        refine ⟨hlisted.emitting hk hm, ⟨hm, rfl, fun _ _ h => h, rfl⟩, fun hsuits => ?_⟩
        have htable := hp i.samplerNumber
        rw [hget] at htable
        obtain ⟨d, hd, rfl⟩ := Option.map_eq_some_iff.1 htable.symm
        unfold Sample.exec
        rw [hd]
        show x.state emitter = if i.takesEffect x.slots = true then _ else _
        rw [if_pos heffect, hstate hsuits.agrees]
        rfl
    · rw [hslots] at hcase
      have hsame := exec_eq_self input hp hcase (x.state c.toEmitter)
      rw [lowerSample_run, hv]
      cases v with
      | fails failure => exact ⟨hready, Shades.refl c, fun _ => hsame.symm⟩
      | skips reason => exact ⟨hready, Shades.refl c, fun _ => hsame.symm⟩
      | passes plan => exact absurd rfl (hno plan)

/-- The checks of the instructions end in no other faults than those of `F`. -/
def PlansWithin (F : Fault → Prop) (t : SamplerTable) (slots : UInt32) (words : List UInt64) : Prop :=
  ∀ word ∈ words, ∀ i, Sample.decode? word = some i → ∀ r : RegisterFile, r.slotsPerBank = slots →
    ∀ f, plan t r i = .error f → F f

theorem lowerWord_ensures (hF : F .idsExhausted)
    (hmul : F .overflow ∨ x.slots.toNat * 4 < UInt32.size) (hp : Tabulates p image c.samplers)
    {word : UInt64} (hplan : PlansWithin F c.samplers x.slots [word]) :
    (x.shading F).Ensures (lowerWord word).run c fun _ c' => x.Suits input c' →
      x.state c'.toEmitter = execWord (x.setting image input) p (x.state c.toEmitter) word := by
  refine Ensures.assume fun hready => ?_
  unfold lowerWord execWord
  cases hi : Sample.decode? word with
  | none => exact Ensures.pure (Except.ok _) fun _ => rfl
  | some i =>
    exact lowerSample_ensures input hF hmul hp
      (hplan word (List.mem_singleton_self word) i hi c.registers hready.keeps.slots)

/-- The code of a stream of instructions does what they mean, one after the other. -/
theorem lowerWordsFrom_ensures (hF : F .idsExhausted)
    (hmul : F .overflow ∨ x.slots.toNat * 4 < UInt32.size) (hp : Tabulates p image c.samplers)
    (words : List UInt64) (position : Nat) (hplan : PlansWithin F c.samplers x.slots words) :
    (x.shading F).Ensures (lowerWordsFrom position words) c fun r c' => r = .ok () →
      x.Suits input c' → x.state c'.toEmitter =
        words.foldl (execWord (x.setting image input) p) (x.state c.toEmitter) := by
  induction words generalizing c position with
  | nil => exact Ensures.pure _ fun _ _ => rfl
  | cons word words ih =>
    have hplan' : PlansWithin F c.samplers x.slots words :=
      fun word' h => hplan word' (List.mem_cons_of_mem word h)
    unfold lowerWordsFrom
    refine (lowerWord_ensures input hF hmul hp fun word' h => ?_).bind
      fun outcome c₁ l₁ h₁ => Ensures.get_bind ?_
    · obtain rfl := List.mem_singleton.1 h
      exact hplan word' (List.mem_cons_self ..)
    · -- unless the lowering ends here, only the counters change before the next word
      have hnext : (x.shading F).Ensures (do
          modify fun c => { c with stats := count c.stats outcome }
          lowerWordsFrom (position + 1) words) c₁ fun r c' => r = .ok () → x.Suits input c' →
          x.state c'.toEmitter =
            List.foldl (execWord (x.setting image input) p) (x.state c.toEmitter) (word :: words) := by
        refine Ensures.bind (P := fun _ c₂ => c₂ = { c₁ with stats := count c₁.stats outcome })
          (Ensures.of_ok rfl fun hr => ⟨⟨hr.keeps, hr.samplers, hr.inputs, hr.distinct⟩,
            ⟨Moves.refl _, rfl, fun _ _ h => h, rfl⟩, rfl⟩) fun _ c₂ l₂ h₂ => ?_
        subst h₂
        refine (ih (by rw [l₂.samplers, l₁.samplers]; exact hp) (position + 1)
          (by rw [l₂.samplers, l₁.samplers]; exact hplan')).imp fun r c₃ l₃ h₃ hr hsuits => ?_
        rw [h₃ hr hsuits, List.foldl_cons]
        show List.foldl _ (x.state c₁.toEmitter) _ = _
        rw [h₁ (l₂.suits (l₃.suits hsuits))]
      split
      · exact Ensures.pure _ fun h => nomatch h
      · exact hnext

/-- The code of a program does what the program means. -/
theorem lowerProgram_ensures (hF : F .idsExhausted)
    (hmul : F .overflow ∨ x.slots.toNat * 4 < UInt32.size) (hp : Tabulates p image c.samplers)
    (hdiv : ∀ q ∈ p.queries, ∀ lane, q.divisorLane = some lane → lane ≤ 3)
    (hadd : F .overflow ∨ QueriesInWords c p.queries)
    (hplan : PlansWithin F c.samplers x.slots p.instructions)
    (hstart : x.Suits input c → x.state c.toEmitter = { registers := x.registers }) :
    (x.shading F).Ensures (lowerProgram p) c fun r c' => (∃ stats, r = .ok stats) →
      x.Suits input c' →
        x.state c'.toEmitter = p.exec (x.setting image input) x.registers := by
  unfold lowerProgram
  refine (shading_of_pausing (resolveQueries_ensures hF p.queries)).bind fun rs c₁ l₁ h₁ => ?_
  obtain ⟨p₁, hrs⟩ := h₁
  refine (emitQueries_ensures input hF hmul (by rw [l₁.samplers]; exact hp) hrs hdiv ?_).bind
    fun fetched c₂ l₂ h₂ => ?_
  · unfold QueriesInWords
    rw [l₁.samplers]
    exact hadd
  refine Ensures.bind (P := fun _ c₃ => c₃.toEmitter = c₂.toEmitter)
    (Ensures.of_ok rfl fun hr => ⟨⟨hr.keeps, hr.samplers, hr.inputs, hr.distinct⟩,
      ⟨Moves.refl _, rfl, fun _ _ h => h, rfl⟩, rfl⟩) fun _ c₃ l₃ h₃ => ?_
  have hsamplers : c₃.samplers = c.samplers := by rw [l₃.samplers, l₂.samplers, l₁.samplers]
  unfold lowerWords
  refine (lowerWordsFrom_ensures input hF hmul (by rw [hsamplers]; exact hp)
    p.instructions 0 (by rw [hsamplers]; exact hplan)).bind fun r c₄ l₄ h₄ => Ensures.get_bind ?_
  refine Ensures.pure _ fun hr hsuits => ?_
  have hr' : r = .ok () := by
    obtain ⟨stats, hr⟩ := hr
    cases r with
    | error f => cases hr
    | ok u => rfl
  have hs₂ := l₃.suits (l₄.suits hsuits)
  have hs₁ := l₂.suits hs₂
  rw [h₄ hr' hsuits, h₃, h₂ hs₂, p₁.state hs₁.agrees, hstart (l₁.suits hs₁)]
  rfl

end Programs

end Launch

end TextureLift
