import TextureLift.Proofs.Lowering.Stream
import TextureLift.Proofs.Shader.Cache

/-!
# Stopping at the first failure

A stream of words either drops the words that fail or stops at the first of them. Up to there the two
ways are the same, since lowering a word does not look at what is to be done with failures. So the
one stops exactly if the other counts failures, and it stops where the first word fails, in the context
that the words before it lead to.
-/

namespace TextureLift

open Build Discipline Lowering

/-- The context with another way to treat failures. -/
def Context.aborting (c : Context) (abort : Bool) : Context :=
  { c with abortOnFailure := abort }

theorem Context.aborting_aside (abort : Bool) : Context.Aside (·.aborting abort) :=
  ⟨fun _ => rfl, fun _ => rfl, fun _ => rfl, fun _ _ => rfl, fun _ _ => rfl⟩

namespace Lowering

variable {c c' : Context} {word : UInt64} {words : List UInt64} {position : Nat}

/-! ## Words that fail -/

/-- Whether a word fails. -/
def fails (samplers : SamplerTable) (slots : UInt32) (word : UInt64) : Bool :=
  match fate samplers slots word with
  | .ok (.error _) => true
  | _ => false

theorem exists_of_fails {samplers : SamplerTable} {slots : UInt32}
    (h : fails samplers slots word = true) : ∃ f, fate samplers slots word = .ok (.error f) := by
  unfold fails at h
  split at h
  · exact ⟨_, ‹_›⟩
  · cases h

/-- A word fails at an operand that cannot be loaded. -/
theorem operandLoad_of_fate {samplers : SamplerTable} {slots : UInt32} {f : Failure}
    (h : fate samplers slots word = .ok (.error f)) : ∃ bank index, f = .operandLoad bank index := by
  unfold fate at h
  cases hs : Sample.decode? word with
  | none =>
    rw [hs] at h
    cases h
  | some s =>
    rw [hs] at h
    obtain ⟨v, hv, ho⟩ := exists_of_map h
    cases v with
    | fails f' =>
      obtain rfl := Except.error.inj ho
      rcases plan_fails hv with ⟨-, rfl⟩ | ⟨-, rfl⟩
      · exact ⟨_, _, rfl⟩
      · exact ⟨_, _, rfl⟩
    | skips reason => cases ho
    | passes p => cases ho

/-- Failures are counted. -/
theorem failed_foldl (os : List (Except Failure Outcome)) (s : Stats) :
    (os.foldl count s).failed = s.failed + os.countP fun o => !o.isOk := by
  induction os generalizing s with
  | nil => rfl
  | cons o os ih =>
    rw [List.foldl_cons, ih, List.countP_cons]
    match o with
    | .ok .emitted => rfl
    | .ok (.skipped _) => rfl
    | .error _ =>
      show s.failed + 1 + _ = s.failed + (_ + 1)
      omega

/-- A stream that goes on after failures has counted none exactly if no word of it fails. -/
theorem failed_eq_iff (habort : c.abortOnFailure = false) {r : Except Failure Unit}
    (h : lowerWordsFrom position words c = .ok (r, c')) :
    c'.stats.failed = c.stats.failed ↔
      ∀ w ∈ words, fails c.samplers c.registers.slotsPerBank w = false := by
  obtain ⟨-, -, os, hos, hstats⟩ := outcomes_of_lowerWordsFrom words habort h
  rw [hstats, failed_foldl, Nat.add_eq_left, List.countP_eq_zero]
  clear h hstats
  induction hos with
  | nil => simp
  | @cons word o words os hfate _ ih =>
    have hword : fails c.samplers c.registers.slotsPerBank word = !o.isOk := by
      unfold fails
      rw [hfate]
      cases o <;> rfl
    rw [List.forall_mem_cons, List.forall_mem_cons, ih, hword, Bool.not_eq_true]

/-! ## Steps of a stream -/

/-- After a word that does not fail comes the next. -/
theorem lowerWordsFrom_cons_ok {o : Outcome} (h : (lowerWord word).run c = .ok (.ok o, c')) :
    lowerWordsFrom position (word :: words) c =
      lowerWordsFrom (position + 1) words (c'.counting (count c'.stats (.ok o))) := by
  show ((lowerWord word).run c >>= _) = _
  rw [h]
  rfl

/-- A word that fails ends a stream that stops at failures, in the context before it. -/
theorem lowerWordsFrom_cons_error {f : Failure} (h : (lowerWord word).run c = .ok (.error f, c'))
    (habort : c.abortOnFailure = true) :
    lowerWordsFrom position (word :: words) c = .ok (.error (.instruction position f), c) := by
  obtain rfl := (lowers_of_run h).same nofun
  show ((lowerWord word).run c' >>= _) = _
  rw [h]
  obtain ⟨emitter, samplers, inputs, main, abort, stats, listing⟩ := c'
  obtain rfl : abort = true := habort
  rfl

/-- The first word of a stream that stops at failures. -/
theorem exists_of_aborting_cons (habort : c.abortOnFailure = true) {r : Except Failure Unit}
    (h : lowerWordsFrom position (word :: words) c = .ok (r, c')) :
    (∃ f, (lowerWord word).run c = .ok (.error f, c) ∧
      r = .error (.instruction position f) ∧ c' = c) ∨
    ∃ o c₁, (lowerWord word).run c = .ok (.ok o, c₁) ∧ c₁.abortOnFailure = true ∧
      lowerWordsFrom (position + 1) words (c₁.counting (count c₁.stats (.ok o))) = .ok (r, c') := by
  obtain ⟨⟨o, c₁⟩, hword, -⟩ := exists_of_bind (show ((lowerWord word).run c >>= _) = _ from h)
  cases o with
  | error f =>
    rw [lowerWordsFrom_cons_error hword habort] at h
    obtain ⟨rfl, rfl⟩ := Prod.mk.inj (Except.ok.inj h)
    obtain rfl := (lowers_of_run hword).same nofun
    exact .inl ⟨f, hword, rfl, rfl⟩
  | ok o =>
    rw [lowerWordsFrom_cons_ok hword] at h
    exact .inr ⟨o, c₁, hword, (lowers_of_run hword).follows.abort.trans habort, h⟩

/-! ## Streams that stop -/

/-- A stream that stopped did so at a word that fails, in the context of the words before it. -/
theorem exists_of_aborted (habort : c.abortOnFailure = true) {e : Failure}
    (h : lowerWordsFrom position words c = .ok (.error e, c')) :
    ∃ before word after f, words = before ++ word :: after ∧
      e = .instruction (position + before.length) f ∧
      lowerWordsFrom position before c = .ok (.ok (), c') ∧
      (lowerWord word).run c' = .ok (.error f, c') := by
  induction words generalizing c position with
  | nil => cases h
  | cons word words ih =>
    rcases exists_of_aborting_cons habort h with ⟨f, hword, he, rfl⟩ | ⟨o, c₁, hword, habort₁, h⟩
    · exact ⟨[], word, words, f, rfl, Except.error.inj he, rfl, hword⟩
    · obtain ⟨before, word', after, f, rfl, rfl, hbefore, hword'⟩ := ih
        (c := c₁.counting (count c₁.stats (.ok o))) habort₁ h
      refine ⟨word :: before, word', after, f, rfl, ?_, ?_, hword'⟩
      · rw [List.length_cons, Nat.add_right_comm, Nat.add_assoc]
      · rw [lowerWordsFrom_cons_ok hword]
        exact hbefore

/-- Streams without failures come to the same, whatever is to be done with failures. -/
theorem lowerWordsFrom_aborting (habort : c.abortOnFailure = false) {r : Except Failure Unit}
    (h : lowerWordsFrom position words c = .ok (r, c'))
    (hok : ∀ w ∈ words, fails c.samplers c.registers.slotsPerBank w = false) :
    lowerWordsFrom position words (c.aborting true) = .ok (.ok (), c'.aborting true) := by
  induction words generalizing c position with
  | nil =>
    obtain ⟨rfl, rfl⟩ := Prod.mk.inj (Except.ok.inj h)
    rfl
  | cons word words ih =>
    obtain ⟨o, c₁, hword, hlowers, h⟩ := exists_of_lowerWordsFrom_cons habort h
    obtain ⟨hfirst, hrest⟩ := List.forall_mem_cons.1 hok
    cases o with
    | error f =>
      unfold fails at hfirst
      rw [hlowers.fate] at hfirst
      cases hfirst
    | ok o =>
      have hword' : (lowerWord word).run (c.aborting true) = .ok (.ok o, c₁.aborting true) := by
        rw [Context.lowerWord_ignores (Context.aborting_aside true) (fun _ _ => rfl) word c, hword]
        rfl
      rw [← hlowers.follows.samplers, ← hlowers.follows.slots] at hrest
      rw [lowerWordsFrom_cons_ok hword']
      exact ih (c := c₁.counting (count c₁.stats (.ok o))) (hlowers.follows.abort.trans habort) h hrest

/-- A stream that stops at failures goes on after the words that do not fail. -/
theorem lowerWordsFrom_append (before : List UInt64) (habort : c.abortOnFailure = true)
    (h : lowerWordsFrom position before c = .ok (.ok (), c')) (after : List UInt64) :
    lowerWordsFrom position (before ++ after) c =
      lowerWordsFrom (position + before.length) after c' := by
  induction before generalizing c position with
  | nil =>
    obtain ⟨-, rfl⟩ := Prod.mk.inj (Except.ok.inj h)
    rfl
  | cons word before ih =>
    rcases exists_of_aborting_cons habort h with ⟨f, -, hr, -⟩ | ⟨o, c₁, hword, habort₁, h⟩
    · cases hr
    · rw [List.cons_append, lowerWordsFrom_cons_ok hword,
        ih (c := c₁.counting (count c₁.stats (.ok o))) habort₁ h, List.length_cons,
        Nat.add_right_comm, Nat.add_assoc]

/-- A stream with a word that fails stops at the first one. -/
theorem lowerWordsFrom_aborting_fails (habort : c.abortOnFailure = false) {r : Except Failure Unit}
    (h : lowerWordsFrom position words c = .ok (r, c'))
    (hfails : ∃ w ∈ words, fails c.samplers c.registers.slotsPerBank w = true) :
    ∃ before word after f c₁, words = before ++ word :: after ∧
      c₁.samplers = c.samplers ∧
      (∀ w ∈ before, fails c.samplers c.registers.slotsPerBank w = false) ∧
      lowerWordsFrom position before (c.aborting true) = .ok (.ok (), c₁) ∧
      (lowerWord word).run c₁ = .ok (.error f, c₁) ∧
      fate c.samplers c.registers.slotsPerBank word = .ok (.error f) ∧
      lowerWordsFrom position words (c.aborting true) =
        .ok (.error (.instruction (position + before.length) f), c₁) := by
  obtain ⟨word, hword⟩ := Option.isSome_iff_exists.1 (List.find?_isSome.2 hfails)
  obtain ⟨hfirst, before, after, rfl, hbefore⟩ := List.find?_eq_some_iff_append.1 hword
  have hok : ∀ w ∈ before, fails c.samplers c.registers.slotsPerBank w = false := by
    simpa using hbefore
  obtain ⟨f, hf⟩ := exists_of_fails hfirst
  obtain ⟨c₁, o, c₂, hrun, hstep, hfate⟩ := fate_of_lowerWordsFrom before habort h
  obtain rfl : .error f = o := Except.ok.inj (hf.symm.trans hfate)
  obtain rfl := (lowers_of_run hstep).same nofun
  obtain ⟨-, hsamplers, -⟩ := outcomes_of_lowerWordsFrom before habort hrun
  have hrun' := lowerWordsFrom_aborting habort hrun hok
  have hstep' : (lowerWord word).run (c₂.aborting true) = .ok (.error f, c₂.aborting true) := by
    rw [Context.lowerWord_ignores (Context.aborting_aside true) (fun _ _ => rfl) word c₂, hstep]
    rfl
  refine ⟨before, word, after, f, c₂.aborting true, rfl, hsamplers, hok, hrun', hstep', hf, ?_⟩
  rw [lowerWordsFrom_append before rfl hrun', lowerWordsFrom_cons_error hstep' rfl]

/-! ## Programs -/

variable {settings : LiftSettings} {p : Program}

theorem start_aborting (settings : LiftSettings) (samplers : List SamplerDesc) (abort : Bool) :
    Context.start { settings with abortOnFailure := abort } samplers =
      (Context.start settings samplers).map (·.aborting abort) := by
  show _ = (fun c : Context => c.aborting abort) <$> Context.start settings samplers
  unfold Context.start
  rw [map_bind]
  rfl

/-- Queries are fetched alike, whatever is to be done with failures. -/
theorem prepare_aborting (settings : LiftSettings) (samplers : List SamplerDesc)
    (queries : List QueryDesc) (abort : Bool) :
    prepare { settings with abortOnFailure := abort } samplers queries =
      (prepare settings samplers queries).map (·.aborting abort) := by
  have haside := Context.aborting_aside abort
  have hfetches : Context.Ignores (·.aborting abort) (do
      let fetched ← emitQueries (← queries.mapM resolveQuery)
      modify fun c => { c with stats := { c.stats with queries := fetched } }) :=
    (Context.Ignores.mapM (Context.resolveQuery_ignores haside) queries).bind fun rs =>
      (Context.emitQueries_ignores haside rs).bind fun fetched c => rfl
  unfold prepare
  rw [start_aborting]
  cases Context.start settings samplers with
  | error f => rfl
  | ok c =>
    exact hfetches.state c

/-- The context before the first instruction, for a program that is to stop at failures. -/
theorem prepare_aborting_of_ok {c : Context}
    (h : prepare settings p.samplers p.queries = .ok c) :
    prepare { settings with abortOnFailure := true } p.samplers p.queries = .ok (c.aborting true) := by
  rw [prepare_aborting, h]
  rfl

/-- A stream that stops leaves the context that the words before the stop lead to. -/
theorem lowerWords_aborted {c c' : Context} {words : List UInt64} {e : Failure}
    (habort : c.abortOnFailure = true) (h : lowerWords words c = .ok (.error e, c')) :
    ∃ position word bank index, e = .instruction position (.operandLoad bank index) ∧
      words[position]? = some word ∧
      (lowerWord word).run c' = .ok (.error (.operandLoad bank index), c') ∧
      lowerWords (words.take position) c = .ok (.ok c'.stats, c') := by
  rw [lowerWords_eq] at h
  obtain ⟨⟨r, c₁⟩, hwords, h⟩ := exists_of_bind h
  obtain ⟨hr, rfl⟩ := Prod.mk.inj (Except.ok.inj h)
  cases r with
  | ok u => cases hr
  | error e' =>
    obtain rfl := Except.error.inj hr
    obtain ⟨before, word, after, f, rfl, rfl, hbefore, hword⟩ := exists_of_aborted habort hwords
    obtain ⟨bank, index, rfl⟩ := operandLoad_of_fate (lowers_of_run hword).fate
    rw [Nat.zero_add]
    refine ⟨before.length, word, bank, index, rfl, by simp, hword, ?_⟩
    rw [List.take_left, lowerWords_eq, hbefore]
    rfl

end Lowering

/-- Stopping at failures and dropping them agree. If no word was dropped, the modules are the same.
Otherwise the one stops at the first word that fails, with the operand that is refused there. And
whatever the context, a stream that stops leaves it as the words before the stop do. -/
theorem lift_abort_agrees {κ : Type} [DecidableEq κ] (key : Program → κ) {settings : LiftSettings}
    {p : Program} {r : Except Failure LiftedModule} {l : Lifter κ} (hp : p.defect? = none)
    (habort : settings.abortOnFailure = false) (h : Lifter.lift key { settings } p = .ok (r, l)) :
    (∃ m, r = .ok m ∧
      (m.stats.failed = 0 → ∃ l',
        Lifter.lift key { settings := { settings with abortOnFailure := true } } p =
          .ok (.ok m, l')) ∧
      (m.stats.failed ≠ 0 → ∃ before word after bank index c l',
        p.instructions = before ++ word :: after ∧
        (∀ w ∈ before, fails c.samplers settings.registerSlots w = false) ∧
        shade { settings with abortOnFailure := true } { p with instructions := before } =
          .ok (.ok c.stats, c) ∧
        (lowerWord word).run c = .ok (.error (.operandLoad bank index), c) ∧
        Lifter.lift key { settings := { settings with abortOnFailure := true } } p =
          .ok (.error (.instruction before.length (.operandLoad bank index)), l'))) ∧
    ∀ words c c' e, c.abortOnFailure = true → lowerWords words c = .ok (.error e, c') →
      ∃ position word bank index, e = .instruction position (.operandLoad bank index) ∧
        words[position]? = some word ∧
        (lowerWord word).run c' = .ok (.error (.operandLoad bank index), c') ∧
        lowerWords (words.take position) c = .ok (.ok c'.stats, c') := by
  refine ⟨?_, fun _ _ _ _ => lowerWords_aborted⟩
  obtain ⟨l₁, hl₁⟩ := Lifter.lift_fresh key settings hp
  obtain ⟨l₂, hl₂⟩ := Lifter.lift_fresh key { settings with abortOnFailure := true } hp
  rw [hl₁] at h
  obtain ⟨r', hlower, hr⟩ := exists_of_map h
  obtain ⟨rfl, -⟩ := Prod.mk.inj hr
  obtain ⟨c, r₁, c', hprepare, hwords, rfl⟩ := exists_of_lower hlower
  obtain ⟨c₀, hc⟩ := prepared_of_prepare hprepare
  have hgoes : c.abortOnFailure = false := hc.abort.trans habort
  have hzero : c.stats.failed = 0 := by
    rw [← hc.emissions]
    rfl
  have hfailed := failed_eq_iff hgoes hwords
  have hprepare' := prepare_aborting_of_ok hprepare
  obtain ⟨rfl, -⟩ := outcomes_of_lowerWordsFrom p.instructions hgoes hwords
  refine ⟨c'.finish, rfl, fun hno => ⟨l₂, ?_⟩, fun hsome => ?_⟩
  · have hok := hfailed.1 (Eq.trans hno hzero.symm)
    rw [hl₂, lower_of_lowerWordsFrom hprepare' (lowerWordsFrom_aborting hgoes hwords hok)]
    rfl
  · have hfails : ∃ w ∈ p.instructions, fails c.samplers c.registers.slotsPerBank w = true := by
      by_contra hnone
      have hsame := hfailed.2 fun w hw => Bool.eq_false_iff.2 fun hw' => hnone ⟨w, hw, hw'⟩
      exact hsome (hsame.trans hzero)
    obtain ⟨before, word, after, f, c₁, hsplit, hsamplers, hok, hbefore, hword, hfate, hstop⟩ :=
      lowerWordsFrom_aborting_fails hgoes hwords hfails
    obtain ⟨bank, index, rfl⟩ := operandLoad_of_fate hfate
    refine ⟨before, word, after, bank, index, c₁, l₂, hsplit, ?_, ?_, hword, ?_⟩
    · rw [hsamplers, ← hc.slots]
      exact hok
    · exact shade_of_lowerWordsFrom (p := { p with instructions := before }) hprepare' hbefore
    · rw [hl₂, lower_eq, shade_of_lowerWordsFrom hprepare' hstop, Nat.zero_add]
      rfl

theorem lift_abort_agrees_mixedProgram : mixedProgram.defect? = none ∧ ∃ m l,
    Lifter.lift id { settings := { registerSlots := 1 } } mixedProgram = .ok (.ok m, l) ∧
    m.stats.failed = 1 ∧ ∃ before word after bank index c l',
      mixedProgram.instructions = before ++ word :: after ∧
      shade { registerSlots := 1, abortOnFailure := true }
        { mixedProgram with instructions := before } = .ok (.ok c.stats, c) ∧
      (lowerWord word).run c = .ok (.error (.operandLoad bank index), c) ∧
      Lifter.lift id { settings := { registerSlots := 1, abortOnFailure := true } } mixedProgram =
        .ok (.error (.instruction before.length (.operandLoad bank index)), l') := by
  have hstats : (Lifter.lift id { settings := { registerSlots := 1 } } mixedProgram).toOption.map
      (fun r => r.1.toOption.map fun m => m.stats.failed) = some (some 1) := by decide +kernel
  cases h : Lifter.lift id { settings := { registerSlots := 1 } } mixedProgram with
  | error f =>
    rw [h] at hstats
    cases hstats
  | ok answer =>
    obtain ⟨r, l⟩ := answer
    rw [h] at hstats
    obtain ⟨⟨m, rfl, -, hfirst⟩, -⟩ := lift_abort_agrees id rfl rfl h
    have hfailed : m.stats.failed = 1 := Option.some.inj (Option.some.inj hstats)
    obtain ⟨before, word, after, bank, index, c, l', hsplit, -, hbefore, hword, hlift⟩ :=
      hfirst (by rw [hfailed]; decide)
    exact ⟨rfl, m, l, rfl, hfailed, before, word, after, bank, index, c, l', hsplit, hbefore, hword,
      hlift⟩

end TextureLift
