import TextureLift.Proofs.Lowering.Aside
import TextureLift.Proofs.Lowering.Atomicity
import TextureLift.Proofs.Lowering.Frame

/-!
# Streams of instruction words

What becomes of a word depends on the word, the samplers and the size of the banks: `fate` computes
it from these alone. Words that emit nothing leave no trace but a count. So a stream comes to the same
module as the words of it that emit code:

    lower settings p = .ok (.ok m) →
      lower settings { p with instructions := p.instructions.filter (emits ..) } = .ok (.ok m')
        with the words and the listing of m

The induction is over the stream. Both runs go through contexts that differ in the counts of skipped
and failed words only, and neither the samplers nor the size of the banks ever change.
-/

namespace TextureLift

open Build Discipline Lowering

/-! ## The size of the banks -/

namespace Emitter

variable {s : Emitter}

theorem emitQuery_sized {texture : Ref} {q : Query} :
    sized.Ensures (emitQuery texture q) s fun _ _ => True := by
  unfold emitQuery
  cases q.divisorLane with
  | none => exact (lift_sized _).bind fun _ _ _ _ => sized_transfers.storeMask trivial
  | some lane =>
    exact (lift_sized _).bind fun _ _ _ _ => (lift_sized _).bind fun _ _ _ _ =>
      sized_transfers.storeMask trivial

theorem emitSample_sized {i : Sample} {info : SamplerInfo}
    (hi : i.takesEffect s.registers.slotsPerBank = true) :
    sized.Succeeds (emitSample (planOf i info)) s fun _ _ => True := by
  unfold emitSample
  refine (sized_transfers.loadCoord hi).bind fun coord s₁ h₁ _ => ?_
  refine (sized_transfers.loadLod (by rw [h₁]; exact hi)).bind fun lod s₂ _ _ => ?_
  exact Succeeds.lift_bind ((lift_sized _).bind fun _ _ _ _ => sized_transfers.storeMask trivial)

end Emitter

/-! ## What contexts keep -/

namespace Context

variable {c c' c'' : Context} {L : UInt32 → Prop}

/-- The samplers, the size of the banks, the settings and the counts are kept, and inputs are added at
locations in `L` only. -/
structure Follows (L : UInt32 → Prop) (c c' : Context) : Prop where
  samplers : c'.samplers = c.samplers
  slots : c'.registers.slotsPerBank = c.registers.slotsPerBank
  abort : c'.abortOnFailure = c.abortOnFailure
  stats : c'.stats = c.stats
  inputs : ∀ location : UInt32, c'.inputs[location]?.isSome → c.inputs[location]?.isSome ∨ L location

theorem Follows.refl (c : Context) : c.Follows L c :=
  ⟨rfl, rfl, rfl, rfl, fun _ h => .inl h⟩

theorem Follows.trans (h : c.Follows L c') (h' : c'.Follows L c'') : c.Follows L c'' where
  samplers := h'.samplers.trans h.samplers
  slots := h'.slots.trans h.slots
  abort := h'.abort.trans h.abort
  stats := h'.stats.trans h.stats
  inputs location hl := (h'.inputs location hl).elim (h.inputs location) .inr

/-- Actions that keep what decides the fate of words. -/
def following (L : UInt32 → Prop) : Discipline Context where
  keeps _ := True
  leads := Follows L
  faults _ := True
  refl := Follows.refl
  trans := Follows.trans

theorem follows_emitting {s : Emitter}
    (h : s.registers.slotsPerBank = c.registers.slotsPerBank) : c.Follows L (c.emitting s) :=
  ⟨rfl, h, rfl, rfl, fun _ h => .inl h⟩

theorem lift_follows {α : Type} {a : Emit α}
    (h : Emitter.sized.Ensures a c.toEmitter fun _ _ => True) :
    (following L).Ensures (liftM a) c fun _ c' => c'.inputs = c.inputs := by
  refine (Launch.lift_emit h (fun _ => trivial) (fun _ _ => trivial) fun s _ _ hl =>
    ⟨trivial, follows_emitting hl⟩).imp fun _ c' _ hc => ?_
  obtain ⟨s, rfl, -⟩ := hc
  rfl

theorem inputAt_follows {location : UInt32} (hL : L location) :
    (following L).Ensures (inputAt location) c fun _ _ => True := by
  unfold inputAt
  refine Ensures.get_bind ?_
  cases c.inputs[location]? with
  | some id => exact Ensures.pure _ trivial
  | none =>
    refine (lift_follows (Emitter.lift_sized _)).bind fun vec c₁ _ _ => ?_
    refine (lift_follows (Emitter.lift_sized _)).bind fun id c₂ _ _ => ?_
    refine (lift_follows (Emitter.lift_sized _)).bind fun _ c₃ _ _ => ?_
    refine Ensures.of_ok (v := id) rfl fun _ => ⟨trivial, ⟨rfl, rfl, rfl, rfl, fun l hl => ?_⟩, trivial⟩
    rw [WordMap.getElem?_insert] at hl
    split at hl
    · rename_i heq
      exact .inr (heq ▸ hL)
    · exact .inl hl

theorem resolveQueries_follows (queries : List QueryDesc) (hL : ∀ q ∈ queries, L q.coordLocation) :
    (following L).Ensures (queries.mapM resolveQuery) c fun rs _ =>
      rs.map (·.sampler) = queries.map (·.sampler) := by
  refine (Ensures.mapM (D := following L) (R := fun (q : QueryDesc) (r : Query) _ => r.sampler = q.sampler)
    queries (fun _ _ _ _ _ h => h) fun q hq c₁ _ => ?_).imp fun rs _ _ hrs => ?_
  · unfold resolveQuery
    exact (inputAt_follows (hL q hq)).bind fun _ _ _ _ => Ensures.get_bind (Ensures.pure _ rfl)
  · clear hL
    induction hrs with
    | nil => rfl
    | cons h _ ih => rw [List.map_cons, List.map_cons, h, ih]

/-- Whether there is a sampler with an index. -/
def hasSampler (c : Context) (index : UInt32) : Bool :=
  (c.samplers.get? index).isSome

/-- The queries whose samplers there are get counted. -/
theorem emitQueries_follows (queries : List Query) :
    (following L).Ensures (emitQueries queries) c fun n _ =>
      n = (queries.map (·.sampler)).countP c.hasSampler := by
  induction queries generalizing c with
  | nil => exact Ensures.pure _ rfl
  | cons q queries ih =>
    unfold emitQueries
    refine Ensures.get_bind ?_
    rw [List.map_cons, List.countP_cons]
    unfold hasSampler
    cases hs : c.samplers.get? q.sampler with
    | none => exact ih
    | some info =>
      refine (lift_follows Emitter.emitQuery_sized).bind fun _ c₁ l₁ _ => ih.bind fun n _ _ hn =>
        Ensures.pure _ ?_
      rw [hn]
      unfold hasSampler
      rw [l₁.samplers]
      rfl

/-- The context with other counts. -/
def counting (c : Context) (stats : Stats) : Context :=
  { c with stats }

theorem counting_aside (stats : Stats) : Aside (·.counting stats) :=
  ⟨fun _ => rfl, fun _ => rfl, fun _ => rfl, fun _ _ => rfl, fun _ _ => rfl⟩

/-- The context with another listing. -/
def relisting (c : Context) (lines : Array String) : Context :=
  { c with listing := lines }

theorem relisting_aside (lines : Array String) : Aside (·.relisting lines) :=
  ⟨fun _ => rfl, fun _ => rfl, fun _ => rfl, fun _ _ => rfl, fun _ _ => rfl⟩

/-- What does not look at the listing does not write it. -/
theorem listing_of_ignores {α : Type} {a : Lower α} {v : α}
    (ha : ∀ lines, Ignores (·.relisting lines) a) (h : a c = .ok (v, c')) : c'.listing = c.listing := by
  have hsame : a (c.relisting c.listing) = (a c).map _ := ha c.listing c
  have hc : c.relisting c.listing = c := rfl
  rw [hc, h] at hsame
  rw [(Prod.mk.inj (Except.ok.inj hsame)).2]
  rfl

end Context

/-! ## The fate of a word -/

/-- What a verdict comes to. Code that is called for does get emitted. -/
def Verdict.outcome : Verdict → Except Failure Outcome
  | .fails failure => .error failure
  | .skips reason => .ok (.skipped reason)
  | .passes _ => .ok .emitted

/-- The checks look at the size of the banks, not at the slots that were touched. -/
theorem RegisterFile.canLoad_of_slotsPerBank {r r' : RegisterFile}
    (h : r'.slotsPerBank = r.slotsPerBank) (op : Operand) (mask : LaneMask) :
    r'.canLoad op mask = r.canLoad op mask := by
  have hrange : r'.inRange = r.inRange := by
    funext bank component
    unfold inRange componentsPerBank
    rw [h]
  have hlanes (lanes : List (Fin 4)) : r'.lanesInRange op lanes = r.lanesInRange op lanes := by
    induction lanes with
    | nil => rfl
    | cons lane lanes ih =>
      unfold lanesInRange
      rw [hrange, ih]
  unfold canLoad
  rw [hlanes]

namespace Lowering

variable {c c' : Context} {word : UInt64}

theorem plan_of_slotsPerBank {r r' : RegisterFile} (h : r'.slotsPerBank = r.slotsPerBank)
    (samplers : SamplerTable) (s : Sample) : plan samplers r' s = plan samplers r s := by
  have hload : r'.canLoad = r.canLoad := by
    funext op mask
    exact RegisterFile.canLoad_of_slotsPerBank h op mask
  unfold plan planLod
  rw [hload]

/-- What becomes of a word, by the samplers and the number of slots in each bank. -/
def fate (samplers : SamplerTable) (slots : UInt32) (word : UInt64) :
    Except Fault (Except Failure Outcome) :=
  match Sample.decode? word with
  | some s => (plan samplers { slotsPerBank := slots } s).map Verdict.outcome
  | none => .ok (.ok (.skipped (.unknown word)))

/-- Whether a word emits code. -/
def emits (samplers : SamplerTable) (slots : UInt32) (word : UInt64) : Bool :=
  match fate samplers slots word with
  | .ok (.ok .emitted) => true
  | _ => false

/-- All that lowering a word does. -/
structure Lowers (word : UInt64) (c : Context) (o : Except Failure Outcome) (c' : Context) : Prop where
  fate : fate c.samplers c.registers.slotsPerBank word = .ok o
  follows : c.Follows (fun _ => False) c'
  /-- Words that emit nothing change nothing. -/
  same : o ≠ .ok .emitted → c' = c
  listing : c'.listing.size = c.listing.size + if o = .ok .emitted then 1 else 0
  /-- The counts play no part. -/
  counting : ∀ stats, (lowerWord word).run (c.counting stats) = .ok (o, c'.counting stats)

theorem lowers_of_run {o : Except Failure Outcome} (h : (lowerWord word).run c = .ok (o, c')) :
    Lowers word c o c' := by
  have hcounting (stats : Stats) :
      (lowerWord word).run (c.counting stats) = .ok (o, c'.counting stats) := by
    rw [Context.lowerWord_ignores (Context.counting_aside stats) (fun _ _ => rfl) word c, h]
    rfl
  unfold lowerWord at h
  cases hs : Sample.decode? word with
  | none =>
    rw [hs] at h
    obtain ⟨rfl, rfl⟩ := Prod.mk.inj (Except.ok.inj h)
    refine ⟨?_, Context.Follows.refl c, fun _ => rfl, rfl, hcounting⟩
    unfold fate
    rw [hs]
  | some s =>
    rw [hs] at h
    dsimp only at h
    rw [lowerSample_run] at h
    obtain ⟨v, hv, h⟩ := exists_of_bind h
    have hplan : plan c.samplers { slotsPerBank := c.registers.slotsPerBank } s = .ok v := by
      rw [← hv]
      exact plan_of_slotsPerBank (by rfl) c.samplers s
    have hfate : fate c.samplers c.registers.slotsPerBank word = .ok v.outcome := by
      unfold fate
      rw [hs]
      dsimp only
      rw [hplan]
      rfl
    cases v with
    | fails failure =>
      obtain ⟨rfl, rfl⟩ := Prod.mk.inj (Except.ok.inj h)
      exact ⟨hfate, Context.Follows.refl c, fun _ => rfl, rfl, hcounting⟩
    | skips reason =>
      obtain ⟨rfl, rfl⟩ := Prod.mk.inj (Except.ok.inj h)
      exact ⟨hfate, Context.Follows.refl c, fun _ => rfl, rfl, hcounting⟩
    | passes p =>
      obtain ⟨⟨r, emitter⟩, he, h⟩ := exists_of_bind h
      rcases plan_result hv with ⟨info, -, heffect, hp⟩ | ⟨hno, -⟩
      · obtain rfl := Verdict.passes.inj hp
        obtain ⟨-, hsized, _, rfl, -⟩ := (Emitter.emitSample_sized heffect).result trivial he
        obtain ⟨rfl, rfl⟩ := Prod.mk.inj (Except.ok.inj h)
        exact ⟨hfate, ⟨rfl, hsized, rfl, rfl, fun _ h => .inl h⟩, fun hne => absurd rfl hne,
          Array.size_push _, hcounting⟩
      · exact absurd rfl (hno p)

/-! ## Streams -/

/-- One step of a stream that goes on after failures. -/
theorem lowerWordsFrom_cons {words : List UInt64} {position : Nat} {o : Except Failure Outcome}
    (h : (lowerWord word).run c = .ok (o, c')) (habort : c'.abortOnFailure = false) :
    lowerWordsFrom position (word :: words) c =
      lowerWordsFrom (position + 1) words (c'.counting (count c'.stats o)) := by
  show ((lowerWord word).run c >>= _) = _
  rw [h]
  cases o with
  | ok outcome => rfl
  | error f =>
    obtain ⟨emitter, samplers, inputs, main, abort, stats, listing⟩ := c'
    obtain rfl : abort = false := habort
    rfl

/-- A stream is lowered word by word. -/
theorem exists_of_lowerWordsFrom_cons {words : List UInt64} {position : Nat}
    {r : Except Failure Unit} (habort : c.abortOnFailure = false)
    (h : lowerWordsFrom position (word :: words) c = .ok (r, c')) :
    ∃ o c₁, (lowerWord word).run c = .ok (o, c₁) ∧ Lowers word c o c₁ ∧
      lowerWordsFrom (position + 1) words (c₁.counting (count c₁.stats o)) = .ok (r, c') := by
  obtain ⟨⟨o, c₁⟩, hword, -⟩ := exists_of_bind (show ((lowerWord word).run c >>= _) = _ from h)
  have hlowers := lowers_of_run hword
  rw [lowerWordsFrom_cons hword (hlowers.follows.abort.trans habort)] at h
  exact ⟨o, c₁, hword, hlowers, h⟩

/-- Every word of a stream meets its fate, whatever comes before it. -/
theorem fate_of_lowerWordsFrom (before : List UInt64) {after : List UInt64} {position : Nat}
    {r : Except Failure Unit} (habort : c.abortOnFailure = false)
    (h : lowerWordsFrom position (before ++ word :: after) c = .ok (r, c')) :
    ∃ c₁ o c₂, lowerWordsFrom position before c = .ok (.ok (), c₁) ∧
      (lowerWord word).run c₁ = .ok (o, c₂) ∧
      fate c.samplers c.registers.slotsPerBank word = .ok o := by
  induction before generalizing c position with
  | nil =>
    obtain ⟨o, c₁, hword, hlowers, -⟩ := exists_of_lowerWordsFrom_cons habort h
    exact ⟨c, o, c₁, rfl, hword, hlowers.fate⟩
  | cons first before ih =>
    obtain ⟨o, c₁, hfirst, hlowers, h⟩ := exists_of_lowerWordsFrom_cons habort h
    have habort₁ := hlowers.follows.abort.trans habort
    obtain ⟨c₂, o', c₃, hbefore, hword, hfate⟩ := ih (c := c₁.counting (count c₁.stats o)) habort₁ h
    refine ⟨c₂, o', c₃, ?_, hword, ?_⟩
    · rw [lowerWordsFrom_cons hfirst habort₁]
      exact hbefore
    · rw [← hlowers.follows.samplers, ← hlowers.follows.slots]
      exact hfate

/-- A stream that goes on after failures comes to its end, and counts what became of its words. -/
theorem outcomes_of_lowerWordsFrom (words : List UInt64) {position : Nat} {r : Except Failure Unit}
    (habort : c.abortOnFailure = false) (h : lowerWordsFrom position words c = .ok (r, c')) :
    r = .ok () ∧ c'.samplers = c.samplers ∧ ∃ os, List.Forall₂ (fun word o =>
        fate c.samplers c.registers.slotsPerBank word = .ok o) words os ∧
      c'.stats = os.foldl count c.stats := by
  induction words generalizing c position with
  | nil =>
    obtain ⟨rfl, rfl⟩ := Prod.mk.inj (Except.ok.inj h)
    exact ⟨rfl, rfl, [], .nil, rfl⟩
  | cons word words ih =>
    obtain ⟨o, c₁, -, hlowers, h⟩ := exists_of_lowerWordsFrom_cons habort h
    obtain ⟨hr, hsamplers, os, hos, hstats⟩ := ih (c := c₁.counting (count c₁.stats o))
      (hlowers.follows.abort.trans habort) h
    refine ⟨hr, hsamplers.trans hlowers.follows.samplers, o :: os, .cons hlowers.fate ?_, ?_⟩
    · rw [← hlowers.follows.samplers, ← hlowers.follows.slots]
      exact hos
    · rw [hstats, List.foldl_cons, ← hlowers.follows.stats]
      rfl

/-- The counts of the words that emitted code. -/
def Stats.emissions (s : Stats) : Stats :=
  { s with skipped := 0, failed := 0 }

theorem emissions_count {s : Stats} {o : Except Failure Outcome} :
    Stats.emissions (count s o) =
      if o = .ok .emitted then count (Stats.emissions s) o else Stats.emissions s := by
  match o with
  | .ok .emitted => rfl
  | .ok (.skipped _) => rfl
  | .error _ => rfl

theorem emits_of_fate {samplers : SamplerTable} {slots : UInt32} {o : Except Failure Outcome}
    (h : fate samplers slots word = .ok o) : emits samplers slots word = decide (o = .ok .emitted) := by
  unfold emits
  rw [h]
  match o with
  | .ok .emitted => rfl
  | .ok (.skipped _) => rfl
  | .error _ => rfl

/-- The words of a stream that emit code come to the same context, but for the counts of the others. -/
theorem lowerWordsFrom_filter (words : List UInt64) {position : Nat} {r : Except Failure Unit}
    (habort : c.abortOnFailure = false) (h : lowerWordsFrom position words c = .ok (r, c')) :
    r = .ok () ∧ ∀ position', lowerWordsFrom position'
      (words.filter (emits c.samplers c.registers.slotsPerBank))
      (c.counting (Stats.emissions c.stats)) =
        .ok (.ok (), c'.counting (Stats.emissions c'.stats)) := by
  induction words generalizing c position with
  | nil =>
    obtain ⟨rfl, rfl⟩ := Prod.mk.inj (Except.ok.inj h)
    exact ⟨rfl, fun _ => rfl⟩
  | cons word words ih =>
    obtain ⟨o, c₁, -, hlowers, h⟩ := exists_of_lowerWordsFrom_cons habort h
    have habort₁ := hlowers.follows.abort.trans habort
    obtain ⟨hr, hrest⟩ := ih (c := c₁.counting (count c₁.stats o)) habort₁ h
    refine ⟨hr, fun position' => ?_⟩
    have hfilter : words.filter (emits c.samplers c.registers.slotsPerBank) =
        words.filter (emits c₁.samplers c₁.registers.slotsPerBank) := by
      rw [hlowers.follows.samplers, hlowers.follows.slots]
    rw [List.filter_cons, emits_of_fate hlowers.fate, hfilter]
    by_cases ho : o = .ok .emitted
    · -- both runs lower the word, from contexts with different counts
      rw [if_pos (decide_eq_true ho), lowerWordsFrom_cons (hlowers.counting (Stats.emissions c.stats)) habort₁]
      have hnext := hrest (position' + 1)
      have hstats : Stats.emissions (count c₁.stats o) = count (Stats.emissions c.stats) o := by
        rw [emissions_count, if_pos ho, hlowers.follows.stats]
      rw [← hnext]
      show _ = lowerWordsFrom _ _ (c₁.counting (Stats.emissions (count c₁.stats o)))
      rw [hstats]
      rfl
    · -- the word is dropped, and it had changed no more than a count
      obtain rfl := hlowers.same ho
      rw [if_neg (by simpa using ho), ← hrest position']
      show _ = lowerWordsFrom _ _ (c₁.counting (Stats.emissions (count c₁.stats o)))
      rw [emissions_count, if_neg ho]
      rfl

/-! ## Whole programs -/

/-- The context before the first instruction: samplers are declared and queries are fetched. -/
def prepare (settings : LiftSettings) (samplers : List SamplerDesc) (queries : List QueryDesc) :
    Except Fault Context := do
  let fetches : Lower Unit := do
    let fetched ← emitQueries (← queries.mapM resolveQuery)
    modify fun c => { c with stats := { c.stats with queries := fetched } }
  let ((), c) ← fetches (← Context.start settings samplers)
  return c

theorem lowerWords_eq (words : List UInt64) (c : Context) : lowerWords words c = do
    let (r, c) ← lowerWordsFrom 0 words c
    return (r.map fun () => c.stats, c) :=
  rfl

/-- Instructions are lowered once the queries are done. -/
theorem shade_eq_prepare (settings : LiftSettings) (p : Program) :
    shade settings p = prepare settings p.samplers p.queries >>= lowerWords p.instructions := by
  unfold shade prepare
  cases Context.start settings p.samplers with
  | error f => rfl
  | ok c =>
    show (p.queries.mapM resolveQuery c >>= _) = ((p.queries.mapM resolveQuery c >>= _) >>= _) >>= _
    cases p.queries.mapM resolveQuery c with
    | error f => rfl
    | ok r =>
      show (emitQueries r.1 r.2 >>= _) = ((emitQueries r.1 r.2 >>= _) >>= _) >>= _
      cases emitQueries r.1 r.2 with
      | error f => rfl
      | ok r => rfl

/-- What is known of the context before the first instruction. -/
structure Prepared (settings : LiftSettings) (p : Program) (c₀ c : Context) : Prop where
  start : Context.start settings p.samplers = .ok c₀
  samplers : c.samplers = c₀.samplers
  slots : c.registers.slotsPerBank = settings.registerSlots
  abort : c.abortOnFailure = settings.abortOnFailure
  stats : c.stats = { queries := (p.queries.map (·.sampler)).countP c.hasSampler }
  listing : c.listing = #[]
  inputs : ∀ location : UInt32, c.inputs[location]?.isSome →
    ∃ q ∈ p.queries, q.coordLocation = location

theorem Prepared.emissions {settings : LiftSettings} {p : Program} {c₀ : Context}
    (h : Prepared settings p c₀ c) : Stats.emissions c.stats = c.stats := by
  rw [h.stats]
  rfl

theorem prepared_of_prepare {settings : LiftSettings} {p : Program}
    (h : prepare settings p.samplers p.queries = .ok c) : ∃ c₀, Prepared settings p c₀ c := by
  unfold prepare at h
  obtain ⟨c₀, hstart, h⟩ := exists_of_bind h
  obtain ⟨⟨⟨⟩, c₁⟩, hfetches, h⟩ := exists_of_bind h
  obtain rfl := Except.ok.inj h
  obtain ⟨⟨rs, c₂⟩, hresolve, h⟩ := exists_of_bind
    (show (p.queries.mapM resolveQuery c₀ >>= _) = _ from hfetches)
  obtain ⟨⟨fetched, c₃⟩, hemit, h⟩ := exists_of_bind (show (emitQueries rs c₂ >>= _) = _ from h)
  obtain ⟨-, rfl⟩ := Prod.mk.inj (Except.ok.inj h)
  let L : UInt32 → Prop := fun location => ∃ q ∈ p.queries, q.coordLocation = location
  obtain ⟨-, hf₂, hrs⟩ := (Context.resolveQueries_follows (L := L) p.queries
    fun q hq => ⟨q, hq, rfl⟩).result trivial hresolve
  obtain ⟨-, hf₃, hfetched⟩ := (Context.emitQueries_follows (L := L) rs).result trivial hemit
  have hf := hf₂.trans hf₃
  have haside := Context.relisting_aside
  have hlisting : c₃.listing = c₀.listing :=
    (Context.listing_of_ignores (fun lines => Context.emitQueries_ignores (haside lines) rs) hemit).trans
      (Context.listing_of_ignores (fun lines => .mapM
        (Context.resolveQuery_ignores (haside lines)) p.queries) hresolve)
  obtain ⟨r, -, hc₀⟩ := exists_of_bind hstart
  obtain rfl := Except.ok.inj hc₀
  refine ⟨_, hstart, hf.samplers, hf.slots, hf.abort, ?_, hlisting, fun location hl => ?_⟩
  · show { c₃.stats with queries := fetched } = _
    rw [hfetched, hrs, hf.stats]
    unfold Context.hasSampler
    rw [← hf₃.samplers]
  · refine (hf.inputs location hl).resolve_left fun hnone => ?_
    simp at hnone

/-- The stream of a program is lowered after its queries. -/
theorem exists_of_shade {settings : LiftSettings} {p : Program} {r : Except Failure Stats}
    (h : shade settings p = .ok (r, c')) : ∃ c r', prepare settings p.samplers p.queries = .ok c ∧
      lowerWordsFrom 0 p.instructions c = .ok (r', c') ∧ r = r'.map fun () => c'.stats := by
  rw [shade_eq_prepare] at h
  obtain ⟨c, hprepare, h⟩ := exists_of_bind h
  rw [lowerWords_eq] at h
  obtain ⟨⟨r', c₁⟩, hwords, h⟩ := exists_of_bind h
  obtain ⟨rfl, rfl⟩ := Prod.mk.inj (Except.ok.inj h)
  exact ⟨c, r', hprepare, hwords, rfl⟩

theorem exists_of_lower {settings : LiftSettings} {p : Program} {r : Except Failure LiftedModule}
    (h : lower settings p = .ok r) : ∃ c r' c', prepare settings p.samplers p.queries = .ok c ∧
      lowerWordsFrom 0 p.instructions c = .ok (r', c') ∧ r = r'.map fun () => c'.finish := by
  rw [lower_eq] at h
  obtain ⟨⟨r₁, c'⟩, hshade, h⟩ := exists_of_bind h
  obtain ⟨c, r', hprepare, hwords, rfl⟩ := exists_of_shade hshade
  refine ⟨c, r', c', hprepare, hwords, ?_⟩
  rw [← Except.ok.inj h]
  cases r' <;> rfl

theorem shade_of_lowerWordsFrom {settings : LiftSettings} {p : Program} {r : Except Failure Unit}
    (hprepare : prepare settings p.samplers p.queries = .ok c)
    (h : lowerWordsFrom 0 p.instructions c = .ok (r, c')) :
    shade settings p = .ok (r.map fun () => c'.stats, c') := by
  rw [shade_eq_prepare, hprepare]
  show lowerWords p.instructions c = _
  rw [lowerWords_eq, h]
  rfl

theorem lower_of_lowerWordsFrom {settings : LiftSettings} {p : Program}
    (hprepare : prepare settings p.samplers p.queries = .ok c)
    (h : lowerWordsFrom 0 p.instructions c = .ok (.ok (), c')) :
    lower settings p = .ok (.ok c'.finish) := by
  rw [lower_eq, shade_of_lowerWordsFrom hprepare h]
  rfl

end Lowering

/-- Words that are skipped or fail do not disturb the others. What becomes of a word depends on it, the
samplers and the number of slots alone, and the words that emit code come to the same module without
the others. -/
theorem lower_filter_emits {settings : LiftSettings} {p : Program} {r : Except Failure LiftedModule}
    (habort : settings.abortOnFailure = false) (h : lower settings p = .ok r) :
    ∃ c₀ m m', Context.start settings p.samplers = .ok c₀ ∧ r = .ok m ∧
      (∀ before word after, p.instructions = before ++ word :: after →
        ∃ c o c', shade settings { p with instructions := before } = .ok (.ok c.stats, c) ∧
          (lowerWord word).run c = .ok (o, c') ∧
          fate c₀.samplers settings.registerSlots word = .ok o) ∧
      lower settings { p with
        instructions := p.instructions.filter (emits c₀.samplers settings.registerSlots) } =
          .ok (.ok m') ∧
      m'.words = m.words ∧ m'.listing = m.listing ∧
      m'.stats = { emitted := m.stats.emitted, queries := m.stats.queries } := by
  obtain ⟨c, r', c', hprepare, hwords, rfl⟩ := exists_of_lower h
  obtain ⟨c₀, hc⟩ := prepared_of_prepare hprepare
  have hgoes : c.abortOnFailure = false := hc.abort.trans habort
  obtain ⟨rfl, hfilter⟩ := lowerWordsFrom_filter p.instructions hgoes hwords
  have hcounting : c.counting (Stats.emissions c.stats) = c := by
    rw [hc.emissions]
    rfl
  rw [hcounting, hc.samplers, hc.slots] at hfilter
  refine ⟨c₀, c'.finish, _, hc.start, rfl, fun before word after hsplit => ?_,
    lower_of_lowerWordsFrom hprepare (hfilter 0), rfl, rfl, rfl⟩
  rw [hsplit] at hwords
  obtain ⟨c₁, o, c₂, hbefore, hword, hfate⟩ := fate_of_lowerWordsFrom before hgoes hwords
  rw [hc.samplers, hc.slots] at hfate
  exact ⟨c₁, o, c₂, shade_of_lowerWordsFrom (p := { p with instructions := before }) hprepare hbefore,
    hword, hfate⟩

/-- One word that emits code among three that do not: an unknown one, one whose gradients are not in
the registers, and one whose sampler does not exist. -/
def mixedProgram : Program where
  samplers := [{ index := 0, componentCount := 4, encoding := .f32 }]
  instructions := [7, Sample.encode { dimension := 1, lodMode := 3, lodIndex := 2 },
    Sample.encode { dimension := 1 }, Sample.encode { dimension := 1, samplerIndex := 5 }]

theorem lower_filter_emits_mixedProgram : ∃ (c₀ : Context) (m m' : LiftedModule),
    lower { registerSlots := 1 } mixedProgram = .ok (.ok m) ∧
    m.stats = { emitted := 1, skipped := 2, failed := 1 } ∧
    lower { registerSlots := 1 } { mixedProgram with
      instructions := mixedProgram.instructions.filter (emits c₀.samplers 1) } = .ok (.ok m') ∧
    m'.words = m.words ∧ m'.listing = m.listing ∧ m'.stats = { emitted := 1 } := by
  have hstats : (lower { registerSlots := 1 } mixedProgram).toOption.map
      (fun r => r.toOption.map LiftedModule.stats) =
        some (some { emitted := 1, skipped := 2, failed := 1 }) := by decide +kernel
  cases h : lower { registerSlots := 1 } mixedProgram with
  | error f =>
    rw [h] at hstats
    cases hstats
  | ok r =>
    rw [h] at hstats
    obtain ⟨c₀, m, m', -, rfl, -, hlower, hwords, hlisting, hm'⟩ := lower_filter_emits rfl h
    have hm := Option.some.inj (Option.some.inj hstats)
    refine ⟨c₀, m, m', rfl, hm, hlower, hwords, hlisting, ?_⟩
    rw [hm', hm]

end TextureLift
