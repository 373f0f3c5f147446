import TextureLift.Proofs.Lowering.Isolation
import TextureLift.Proofs.Lowering.Stream
import TextureLift.Proofs.Shader.Cache
import TextureLift.Proofs.Shader.Faults

/-!
# Counts, listings and requests

Every word of a program is counted once, every query whose sampler is declared is fetched, and every
word that emits code has a line in the listing. The body of the module samples once for each of these
fetches, in order: first for the queries, then for the words. What the fetches of a program are is known
from its windows (`Program.fetches`); here they are tied to the counts.
-/

namespace TextureLift

open Build Discipline Lowering

/-! ## The instructions of fetches -/

namespace Context

/-- The instruction samples an image that the body loads from the variable of a sampler, which is bound
to its index. -/
def Samples (c : Context) (sampler : UInt32) (lod : FetchLod) (i : Inst) : Prop :=
  ∃ info, c.samplers.get? sampler = some info ∧
    ⟨info.id, Decoration.binding, sampler⟩ ∈ c.close.decorations ∧
    i.Asks c.close.body.toList info.id lod

/-- The instruction is the fetch of a query. -/
def FetchesQuery (c : Context) (q : QueryDesc) (i : Inst) : Prop :=
  c.Samples q.sampler q.lod i

/-- The instruction is the fetch of a word. -/
def FetchesWord (c : Context) (word : UInt64) (i : Inst) : Prop :=
  ∃ s lod, Sample.decode? word = some s ∧ c.Samples s.samplerNumber lod i ∧ match lod with
    | .implicit => s.lodMode = 0
    | .projective => False
    | .bias _ => s.lodMode = 2
    | .gradient _ _ => s.lodMode = 3

end Context

/-- The variables of the samplers are bound to their indices. -/
def Context.Binds (c : Context) : Prop :=
  ∀ index info, c.samplers.get? index = some info →
    ⟨info.id, Decoration.binding, index⟩ ∈ c.close.decorations

namespace Fetch

variable {c : Context} {p : Program} {i : Inst} {f : Fetch}

theorem fetchesQuery_of_askedBy {q : QueryDesc} (hc : c.Binds) (hq : p.fetchOfQuery? q = some f)
    (h : f.AskedBy c.samplers c.close.body.toList i) : c.FetchesQuery q i := by
  obtain ⟨d, -, rfl⟩ := Option.map_eq_some_iff.1 hq
  obtain ⟨info, lod, hinfo, rfl, hasks⟩ := h
  exact ⟨info, hinfo, hc _ _ hinfo, hasks⟩

theorem fetchesWord_of_askedBy {slots : UInt32} {word : UInt64} (hc : c.Binds)
    (hw : p.fetchOfWord? slots word = some f) (h : f.AskedBy c.samplers c.close.body.toList i) :
    c.FetchesWord word i := by
  obtain ⟨s, hs, hf⟩ := Option.bind_eq_some_iff.1 hw
  unfold Program.fetchOfSample? at hf
  split at hf
  · obtain ⟨d, -, rfl⟩ := Option.map_eq_some_iff.1 hf
    obtain ⟨info, lod, hinfo, htakes, hasks⟩ := h
    -- decoded selectors have two bits
    have hmode : s.lodMode.toNat % 4 = s.lodMode.toNat :=
      Nat.mod_eq_of_lt (Sample.bounds_of_decode? hs).2.2.2
    refine ⟨s, lod, hs, ⟨info, hinfo, hc _ _ hinfo, hasks⟩, ?_⟩
    cases lod with
    | implicit => exact UInt8.toNat_inj.1 (hmode.symm.trans htakes)
    | projective => exact htakes
    | bias level => exact UInt8.toNat_inj.1 (hmode.symm.trans htakes.1)
    | gradient dx dy => exact UInt8.toNat_inj.1 (hmode.symm.trans htakes.1)
  · cases hf

end Fetch

/-- Whether a program declares a sampler with an index. -/
def Program.declares (p : Program) (index : UInt32) : Bool :=
  p.samplers.any (·.index = index)

theorem Program.isSome_sampler? (p : Program) (index : UInt32) :
    (p.sampler? index).isSome = p.declares index := by
  rw [Bool.eq_iff_iff]
  unfold sampler? declares
  simp

/-- What is related to the images of some members is related to these members. -/
theorem forall₂_filter_of_filterMap {α β γ : Type} {f : α → Option β} {p : α → Bool}
    {R : β → γ → Prop} {S : α → γ → Prop} {as : List α} {cs : List γ}
    (hp : ∀ a ∈ as, p a = (f a).isSome) (hS : ∀ a b c, f a = some b → R b c → S a c)
    (h : List.Forall₂ R (as.filterMap f) cs) : List.Forall₂ S (as.filter p) cs := by
  induction as generalizing cs with
  | nil =>
    cases h
    exact .nil
  | cons a as ih =>
    have hrest : ∀ a' ∈ as, p a' = (f a').isSome := fun a' ha' => hp a' (List.mem_cons_of_mem _ ha')
    rw [List.filter_cons, hp a List.mem_cons_self]
    cases hf : f a with
    | none =>
      rw [List.filterMap_cons_none hf] at h
      exact ih hrest h
    | some b =>
      rw [List.filterMap_cons_some hf] at h
      cases h with
      | cons hb h => exact .cons (hS a b _ hf hb) (ih hrest h)

/-! ## Counts -/

namespace Lowering

variable {c c' : Context}

/-- The number of words that were counted. -/
def Stats.words (s : Stats) : Nat :=
  s.emitted + s.skipped + s.failed

theorem words_count (s : Stats) (o : Except Failure Outcome) :
    Stats.words (count s o) = Stats.words s + 1 := by
  unfold Stats.words
  match o with
  | .ok .emitted => simp only [count]; omega
  | .ok (.skipped _) => simp only [count]; omega
  | .error _ => simp only [count]; omega

theorem emitted_count (s : Stats) (o : Except Failure Outcome) :
    (count s o).emitted = s.emitted + if o = .ok .emitted then 1 else 0 := by
  match o with
  | .ok .emitted => rfl
  | .ok (.skipped _) => rfl
  | .error _ => rfl

theorem queries_count (s : Stats) (o : Except Failure Outcome) : (count s o).queries = s.queries := by
  match o with
  | .ok .emitted => rfl
  | .ok (.skipped _) => rfl
  | .error _ => rfl

/-- What a stream does to the counts and to the listing. -/
structure Accounts (words : List UInt64) (c c' : Context) : Prop where
  total : Stats.words c'.stats = Stats.words c.stats + words.length
  emitted : c'.stats.emitted =
    c.stats.emitted + (words.filter (emits c.samplers c.registers.slotsPerBank)).length
  listing : c'.listing.size =
    c.listing.size + (words.filter (emits c.samplers c.registers.slotsPerBank)).length
  queries : c'.stats.queries = c.stats.queries

theorem accounts_of_lowerWordsFrom (words : List UInt64) {position : Nat} {r : Except Failure Unit}
    (habort : c.abortOnFailure = false) (h : lowerWordsFrom position words c = .ok (r, c')) :
    Accounts words c c' := by
  induction words generalizing c position with
  | nil =>
    obtain ⟨rfl, rfl⟩ := Prod.mk.inj (Except.ok.inj h)
    exact ⟨rfl, rfl, rfl, rfl⟩
  | cons word words ih =>
    obtain ⟨o, c₁, -, hlowers, h⟩ := exists_of_lowerWordsFrom_cons habort h
    obtain ⟨hwords, hemitted, hlisting, hqueries⟩ := ih (c := c₁.counting (count c₁.stats o))
      (hlowers.follows.abort.trans habort) h
    -- the first word has its fate, and the others have theirs with the same samplers and slots
    have hfilter : ((word :: words).filter (emits c.samplers c.registers.slotsPerBank)).length =
        (if o = .ok .emitted then 1 else 0) +
          (words.filter (emits c₁.samplers c₁.registers.slotsPerBank)).length := by
      rw [hlowers.follows.samplers, hlowers.follows.slots, List.filter_cons,
        emits_of_fate hlowers.fate]
      by_cases ho : o = .ok .emitted
      · rw [if_pos (decide_eq_true ho), if_pos ho, List.length_cons, Nat.add_comm]
      · rw [if_neg (by simpa using ho), if_neg ho, Nat.zero_add]
    refine ⟨?_, ?_, ?_, ?_⟩
    · rw [hwords, List.length_cons]
      show Stats.words (count c₁.stats o) + _ = _
      rw [words_count, hlowers.follows.stats]
      omega
    · rw [hemitted, hfilter]
      show (count c₁.stats o).emitted + _ = _
      rw [emitted_count, hlowers.follows.stats, Nat.add_assoc]
      rfl
    · rw [hlisting, hfilter, ← Nat.add_assoc]
      exact congrArg (· + _) hlowers.listing
    · rw [hqueries]
      show (count c₁.stats o).queries = _
      rw [queries_count, hlowers.follows.stats]

variable {p : Program} {image : UInt32 → Ref} {samplers : SamplerTable}

/-- Words that emit code are those that make a request. -/
theorem emits_eq_isSome (hp : Launch.Tabulates p image samplers) {slots : UInt32} {word : UInt64}
    {o : Except Failure Outcome} (h : fate samplers slots word = .ok o) :
    emits samplers slots word = (p.fetchOfWord? slots word).isSome := by
  rw [emits_of_fate h]
  unfold fate at h
  unfold Program.fetchOfWord?
  cases hs : Sample.decode? word with
  | none =>
    rw [hs] at h
    obtain rfl := Except.ok.inj h
    rfl
  | some s =>
    rw [hs] at h
    obtain ⟨v, hv, rfl⟩ := exists_of_map h
    rw [Option.bind_some]
    rcases Context.fetchOfSample?_of_plan hp hv with ⟨info, d, -, -, rfl, hsome⟩ | ⟨hno, hnone⟩
    · rw [hsome]
      rfl
    · rw [hnone]
      cases v with
      | fails failure => rfl
      | skips reason => rfl
      | passes plan => exact absurd rfl (hno plan)

theorem emits_of_lowerWordsFrom (hp : Launch.Tabulates p image c.samplers) {words : List UInt64}
    {position : Nat} {r : Except Failure Unit} (habort : c.abortOnFailure = false)
    (h : lowerWordsFrom position words c = .ok (r, c')) : ∀ word ∈ words,
      emits c.samplers c.registers.slotsPerBank word =
        (p.fetchOfWord? c.registers.slotsPerBank word).isSome := by
  intro word hword
  obtain ⟨before, after, rfl⟩ := List.append_of_mem hword
  obtain ⟨-, o, -, -, -, hfate⟩ := fate_of_lowerWordsFrom before habort h
  exact emits_eq_isSome hp hfate

/-- The queries that are fetched are those of declared samplers. -/
theorem countP_hasSampler (hp : Launch.Tabulates p image c.samplers) :
    (p.queries.map (·.sampler)).countP c.hasSampler =
      (p.queries.filter fun q => p.declares q.sampler).length := by
  have hdeclares : c.hasSampler = p.declares := by
    funext index
    unfold Context.hasSampler
    rw [hp index, Option.isSome_map, p.isSome_sampler?]
  rw [hdeclares, List.countP_map, List.countP_eq_length_filter]
  rfl

/-! ## Whole programs -/

variable {settings : LiftSettings} {stats : Stats}

theorem shade_binds (hp : p.defect? = none) (h : shade settings p = .ok (.ok stats, c)) : c.Binds := by
  obtain ⟨c₀, hbegins, hshades⟩ := (Launch.shade_ends_blank hp h).shades
  intro index info hinfo
  rw [hshades.samplers] at hinfo
  exact hshades.moves.leads.grows.decorated _ (hbegins.lists.bound index info hinfo)

/-- The samples of the function are the requests of the fetches. -/
theorem shade_asked (hp : p.defect? = none) (h : shade settings p = .ok (.ok stats, c)) :
    List.Forall₂ (Fetch.AskedBy c.samplers c.close.body.toList) (p.fetches settings.registerSlots)
      (samplesOf c.close.body.toList) := by
  rw [c.samplesOf_close]
  refine (shade_requested hp h).2.imp fun f i hi => hi.2.mono ?_
  rw [c.body_close]
  exact List.subset_append_left _ _

end Lowering

/-- Everything is accounted for, once and in order. Each word is emitted, skipped or failed, and each
query of a declared sampler is fetched. The listing has a line for each word that emits code. The
samples of the body are the fetches of these queries, followed by those of these words. -/
theorem lift_accounts {κ : Type} [DecidableEq κ] (key : Program → κ) {settings : LiftSettings}
    {p : Program} {r : Except Failure LiftedModule} {l : Lifter κ} (hp : p.defect? = none)
    (habort : settings.abortOnFailure = false) (h : Lifter.lift key { settings } p = .ok (r, l)) :
    ∃ m c ofQueries ofWords, r = .ok m ∧ shade settings p = .ok (.ok m.stats, c) ∧ c.finish = m ∧
      m.stats.emitted + m.stats.skipped + m.stats.failed = p.instructions.length ∧
      m.stats.queries = (p.queries.filter fun q => p.declares q.sampler).length ∧
      m.listing.length = m.stats.emitted ∧
      samplesOf c.close.body.toList = ofQueries ++ ofWords ∧
      (samplesOf c.close.body.toList).length = m.stats.queries + m.stats.emitted ∧
      List.Forall₂ c.FetchesQuery (p.queries.filter fun q => p.declares q.sampler) ofQueries ∧
      List.Forall₂ c.FetchesWord
        (p.instructions.filter (emits c.samplers settings.registerSlots)) ofWords := by
  obtain ⟨l₁, hl₁⟩ := Lifter.lift_fresh key settings hp
  rw [hl₁] at h
  obtain ⟨r', hlower, hr⟩ := exists_of_map h
  obtain ⟨rfl, -⟩ := Prod.mk.inj hr
  obtain ⟨c, r₁, c', hprepare, hwords, rfl⟩ := exists_of_lower hlower
  obtain ⟨c₀, hc⟩ := prepared_of_prepare hprepare
  have hgoes : c.abortOnFailure = false := hc.abort.trans habort
  obtain ⟨rfl, hsamplers, -⟩ := outcomes_of_lowerWordsFrom p.instructions hgoes hwords
  have hshade : shade settings p = .ok (.ok c'.stats, c') := shade_of_lowerWordsFrom hprepare hwords
  obtain ⟨htotal, hemitted, hlisting, hqueries⟩ :=
    accounts_of_lowerWordsFrom p.instructions hgoes hwords
  have hbegins : (Launch.blank settings.registerSlots).Begins p.samplers c₀ :=
    Launch.start_begins rfl hc.start
  have htable := Program.tabulates_of_lists hp hbegins.lists
  rw [← hc.samplers] at htable
  have hemits := emits_of_lowerWordsFrom htable hgoes hwords
  rw [hc.slots] at hemits hemitted hlisting
  have hdeclares : ∀ q ∈ p.queries, p.declares q.sampler = (p.fetchOfQuery? q).isSome := fun q _ => by
    unfold Program.fetchOfQuery?
    rw [Option.isSome_map, p.isSome_sampler?]
  have hbinds := shade_binds hp hshade
  obtain ⟨ofQueries, ofWords, hsamples, hofQueries, hofWords⟩ :=
    exists_of_forall₂_append (shade_asked hp hshade)
  have hfetchQueries := forall₂_filter_of_filterMap (S := c'.FetchesQuery) hdeclares
    (fun _ _ _ hq hi => Fetch.fetchesQuery_of_askedBy hbinds hq hi) hofQueries
  have hfetchWords := forall₂_filter_of_filterMap (S := c'.FetchesWord) hemits
    (fun _ _ _ hw hi => Fetch.fetchesWord_of_askedBy hbinds hw hi) hofWords
  have hcount : c'.stats.queries = (p.queries.filter fun q => p.declares q.sampler).length := by
    rw [hqueries, hc.stats]
    exact countP_hasSampler htable
  rw [hc.stats, Nat.zero_add] at hemitted
  rw [hc.listing, ← hemitted] at hlisting
  refine ⟨c'.finish, c', ofQueries, ofWords, rfl, hshade, rfl, ?_, hcount, ?_, hsamples, ?_,
    hfetchQueries, ?_⟩
  · rw [hc.stats] at htotal
    exact htotal.trans (Nat.zero_add _)
  · exact (Array.length_toList).trans (hlisting.trans (Nat.zero_add _))
  · rw [hsamples, List.length_append, ← hfetchQueries.length_eq, ← hfetchWords.length_eq, ← hcount,
      ← hemitted]
    rfl
  · rw [hsamplers]
    exact hfetchWords

theorem lift_accounts_gradientProgram : gradientProgram.defect? = none ∧ ∃ m l c i j,
    Lifter.lift id { settings := {} } gradientProgram = .ok (.ok m, l) ∧
    m.stats = { emitted := 1, skipped := 1, queries := 1 } ∧ m.listing.length = 1 ∧
    shade {} gradientProgram = .ok (.ok m.stats, c) ∧ samplesOf c.close.body.toList = [i, j] ∧
    (∃ q ∈ gradientProgram.queries, c.FetchesQuery q i) ∧
    ∃ word ∈ gradientProgram.instructions, c.FetchesWord word j := by
  obtain ⟨c₀, hc₀⟩ := exists_shade_gradientProgram
  have hlower : lower {} gradientProgram = .ok (.ok c₀.finish) := by
    rw [lower_eq, hc₀]
    rfl
  obtain ⟨l, hl⟩ := Lifter.lift_fresh id {} (p := gradientProgram) (by decide)
  rw [hlower] at hl
  obtain ⟨m, c, ofQueries, ofWords, hr, hshade, -, -, hqueries, hlisting, hsamples, hlength, hq, hw⟩ :=
    lift_accounts id (by decide) rfl hl
  obtain rfl := Except.ok.inj hr
  obtain ⟨hstats, rfl⟩ := Prod.mk.inj (Except.ok.inj (hc₀.symm.trans hshade))
  have hstats := (Except.ok.inj hstats).symm
  rw [hstats] at hqueries hlisting hlength
  rw [hsamples, List.length_append, ← hq.length_eq, ← hqueries] at hlength
  rw [hq.length_eq] at hqueries
  obtain ⟨i, rfl⟩ := List.length_eq_one_iff.1 hqueries.symm
  obtain ⟨j, rfl⟩ := List.length_eq_one_iff.1 (Nat.add_left_cancel hlength)
  refine ⟨by decide, _, l, c₀, i, j, hl, hstats, hlisting, hshade, hsamples, ?_, ?_⟩
  · obtain ⟨q, hget, hqi⟩ := getElem?_of_forall₂ (n := 0) hq rfl
    exact ⟨q, (List.mem_filter.1 (List.mem_of_getElem? hget)).1, hqi⟩
  · obtain ⟨word, hget, hwj⟩ := getElem?_of_forall₂ (n := 0) hw rfl
    exact ⟨word, (List.mem_filter.1 (List.mem_of_getElem? hget)).1, hwj⟩

end TextureLift
