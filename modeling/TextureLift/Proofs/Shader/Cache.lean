import Mathlib.Data.List.Dedup
import Mathlib.Data.List.Perm.Basic
import Mathlib.Data.Set.Function
import TextureLift.Proofs.Shader.Lifter

/-!
# The cache is transparent

A session is a lifter that serves calls. A call is made as a whole, or in the two steps that other
calls and clears may come between: entering looks the program up, and leaving lowers it and keeps the
module. The log of a session has every answer, every module that was kept and every clear. For every
list of actions, if programs that are called with different keys are different:

    .answered p a ∈ s.log → a = uncached key settings p
    (k, m) ∈ s.lifter.cache.entries → m is the module of an acceptable program with the key k
    s.lifter.cache.size = (insertedSince s.log).dedup.length

The argument is one invariant, `Session.Sound`, that each action keeps.
-/

namespace TextureLift

/-- How a call ends: with a fault, a failure or a module. -/
abbrev Answer := Except Fault (Except Failure LiftedModule)

namespace Lifter

variable {κ : Type} [DecidableEq κ] {key : Program → κ} {l : Lifter κ} {p : Program}

/-- What a fresh lifter without a cache answers. -/
def uncached (key : Program → κ) (settings : LiftSettings) (p : Program) : Answer :=
  (Lifter.lift key { settings := { settings with cacheModules := false } } p).map Prod.fst

/-- The first step of a call: the answer, if it takes no lowering. -/
def enter (key : Program → κ) (l : Lifter κ) (p : Program) : Option Answer :=
  match p.defect? with
  | some defect => some (.ok (.error (.ofDefect defect)))
  | none => (l.known? (key p)).map fun m => .ok (.ok m)

/-- Whether the second step of a call keeps a module. -/
def keeps (l : Lifter κ) (p : Program) : Bool :=
  match lower l.settings p with
  | .ok (.ok _) => l.settings.cacheModules
  | _ => false

/-- The second step of a call: lowers the program and keeps the module. -/
def leave (key : Program → κ) (l : Lifter κ) (p : Program) : Answer × Lifter κ :=
  match lower l.settings p with
  | .ok (.ok m) => (.ok (.ok m), l.remember (key p) m)
  | answer => (answer, l)

theorem leave_fst : (l.leave key p).1 = lower l.settings p := by
  unfold leave
  split <;> simp_all

/-- Lifting is the first step and, if it gives no answer, the second. -/
theorem lift_eq_steps : l.lift key p = match l.enter key p with
    | some a => a.map (·, l)
    | none => (l.leave key p).1.map (·, (l.leave key p).2) := by
  unfold lift enter leave
  cases p.defect? with
  | some defect => rfl
  | none =>
    cases l.known? (key p) with
    | some m => rfl
    | none =>
      rcases lower l.settings p with f | f | m
      · rfl
      · rfl
      · rfl

theorem uncached_of_defect {settings : LiftSettings} {defect : Defect} (h : p.defect? = some defect) :
    uncached key settings p = .ok (.error (.ofDefect defect)) := by
  rw [uncached, lift_eq_steps, enter, h]
  rfl

/-- Without a cache an acceptable program is lowered. -/
theorem uncached_of_sound {settings : LiftSettings} (h : p.defect? = none) :
    uncached key settings p = lower settings p := by
  have henter : enter key { settings := { settings with cacheModules := false } } p = none := by
    rw [enter, h]
    rfl
  rw [uncached, lift_eq_steps, henter]
  simp only [leave_fst]
  show ((lower settings p).map _).map _ = lower settings p
  cases lower settings p <;> rfl

/-- A fresh lifter lowers every acceptable program. -/
theorem lift_fresh (key : Program → κ) (settings : LiftSettings) (hp : p.defect? = none) :
    ∃ l, lift key { settings } p = (lower settings p).map (·, l) := by
  have henter : enter key { settings } p = none := by
    unfold enter known?
    rw [hp]
    dsimp only
    split <;> rfl
  refine ⟨(leave key { settings } p).2, ?_⟩
  rw [lift_eq_steps, henter]
  simp only [leave_fst]

end Lifter

/-! ## Sessions -/

/-- What a session records. -/
inductive Event
  | answered (p : Program) (a : Answer)
  | inserted (p : Program)
  | cleared

namespace Event

/-- The programs that were answered, in the order of the log. -/
def answers (log : List Event) : List Program :=
  log.filterMap fun
    | .answered p _ => some p
    | _ => none

/-- The programs whose modules were kept since the last clear. The log has the newest event first. -/
def insertedSince : List Event → List Program
  | [] => []
  | .answered _ _ :: log => insertedSince log
  | .inserted p :: log => p :: insertedSince log
  | .cleared :: _ => []

end Event

open Event

/-- What happens to a session: a whole call, the first step of a call, the second step of the n-th
call that waits for it, or a clear. -/
inductive Action
  | call (p : Program)
  | enter (p : Program)
  | leave (n : Nat)
  | clear

/-- The program that an action calls. -/
def Action.program? : Action → Option Program
  | .call p | .enter p => some p
  | .leave _ | .clear => none

/-- A lifter, the calls that were entered and not left, and the log. -/
structure Session (κ : Type) where
  lifter : Lifter κ
  pending : List Program := []
  log : List Event := []

namespace Session

variable {κ : Type} [DecidableEq κ] {key : Program → κ} {settings : LiftSettings} {s : Session κ}
  {p : Program} {a : Answer}

def record (s : Session κ) (events : List Event) : Session κ :=
  { s with log := events ++ s.log }

def enter (key : Program → κ) (s : Session κ) (p : Program) : Session κ :=
  match s.lifter.enter key p with
  | some a => s.record [.answered p a]
  | none => { s with pending := s.pending ++ [p] }

/-- The events of a call that lowers its program. -/
def departure (l : Lifter κ) (p : Program) (a : Answer) : List Event :=
  .answered p a :: if l.keeps p then [.inserted p] else []

def leave (key : Program → κ) (s : Session κ) (p : Program) : Session κ :=
  let (a, l) := s.lifter.leave key p
  { s with lifter := l }.record (departure s.lifter p a)

def call (key : Program → κ) (s : Session κ) (p : Program) : Session κ :=
  match s.lifter.lift key p with
  | .ok (r, l) =>
    { s with lifter := l }.record <|
      if (s.lifter.enter key p).isSome then [.answered p (.ok r)] else departure s.lifter p (.ok r)
  | .error fault => s.record [.answered p (.error fault)]

/-- The second step of the n-th call that waits. -/
def resume (key : Program → κ) (s : Session κ) (n : Nat) : Session κ :=
  match s.pending[n]? with
  | some p => { s with pending := s.pending.eraseIdx n }.leave key p
  | none => s

def step (key : Program → κ) (s : Session κ) : Action → Session κ
  | .call p => s.call key p
  | .enter p => s.enter key p
  | .leave n => s.resume key n
  | .clear => { s with lifter := s.lifter.clear }.record [.cleared]

/-- A session with a fresh lifter, after these actions. -/
def run (key : Program → κ) (settings : LiftSettings) (actions : List Action) : Session κ :=
  actions.foldl (step key) { lifter := { settings } }

/-- A whole call is its two steps with nothing between them. -/
theorem call_eq_steps : s.call key p = match s.lifter.enter key p with
    | some a => s.record [.answered p a]
    | none => s.leave key p := by
  unfold call leave
  rw [Lifter.lift_eq_steps]
  cases hen : s.lifter.enter key p with
  | some a => cases a <;> rfl
  | none =>
    unfold departure Lifter.keeps Lifter.leave
    rcases lower s.lifter.settings p with f | f | m
    · rfl
    · rfl
    · rfl

/-! ## The invariant -/

/-- What all sessions keep that call only the programs in `used`. -/
structure Sound (key : Program → κ) (settings : LiftSettings) (used : Set Program) (s : Session κ) :
    Prop where
  settings_eq : s.lifter.settings = settings
  answered : ∀ p a, .answered p a ∈ s.log → a = Lifter.uncached key settings p
  pending : ∀ p ∈ s.pending, p ∈ used ∧ p.defect? = none
  inserted : ∀ p ∈ insertedSince s.log, p ∈ used ∧ settings.cacheModules = true
  keys : (s.lifter.cache.entries.map Prod.fst).Nodup
  /-- An entry is the module of a program that was inserted. -/
  entries : ∀ k m, (k, m) ∈ s.lifter.cache.entries →
    ∃ p ∈ insertedSince s.log, key p = k ∧ p.defect? = none ∧ lower settings p = .ok (.ok m)
  /-- Every program that was inserted has an entry. -/
  kept : ∀ p ∈ insertedSince s.log, key p ∈ s.lifter.cache.entries.map Prod.fst

variable {used : Set Program}

theorem sound_start : Sound key settings used { lifter := { settings } } where
  settings_eq := rfl
  answered _ _ h := nomatch h
  pending _ h := nomatch h
  inserted _ h := nomatch h
  keys := List.nodup_nil
  entries _ _ h := nomatch h
  kept _ h := nomatch h

/-- The cache has no module of another program under the key of a program that is used. -/
theorem Sound.lower_of_mem (hs : s.Sound key settings used) (hkey : Set.InjOn key used)
    (hp : p ∈ used) {m : LiftedModule} (h : (key p, m) ∈ s.lifter.cache.entries) :
    p.defect? = none ∧ lower settings p = .ok (.ok m) := by
  obtain ⟨q, hq, hqkey, hdefect, hlower⟩ := hs.entries _ _ h
  obtain rfl := hkey (hs.inserted q hq).1 hp hqkey
  exact ⟨hdefect, hlower⟩

/-- An answer that takes no lowering is the right one. -/
theorem Sound.enter_eq (hs : s.Sound key settings used) (hkey : Set.InjOn key used) (hp : p ∈ used)
    (h : s.lifter.enter key p = some a) : a = Lifter.uncached key settings p := by
  unfold Lifter.enter at h
  cases hdefect : p.defect? with
  | some defect =>
    simp only [hdefect, Option.some.injEq] at h
    rw [Lifter.uncached_of_defect hdefect, h]
  | none =>
    simp only [hdefect, Option.map_eq_some_iff] at h
    obtain ⟨m, hm, rfl⟩ := h
    have hmem := (Lifter.of_known? hm).2
    rw [Lifter.uncached_of_sound hdefect, (hs.lower_of_mem hkey hp hmem).2]

/-- A program that has to wait for its second step is acceptable. -/
theorem defect?_of_enter (h : s.lifter.enter key p = none) : p.defect? = none := by
  unfold Lifter.enter at h
  cases hdefect : p.defect? with
  | some defect => simp [hdefect] at h
  | none => rfl

theorem Sound.record_answered (hs : s.Sound key settings used)
    (ha : a = Lifter.uncached key settings p) : (s.record [.answered p a]).Sound key settings used :=
  { hs with
    answered := by
      intro q b hq
      rcases List.mem_cons.1 hq with hq | hq
      · cases hq
        exact ha
      · exact hs.answered q b hq }

theorem Sound.enter (hs : s.Sound key settings used) (hkey : Set.InjOn key used) (hp : p ∈ used) :
    (s.enter key p).Sound key settings used := by
  unfold Session.enter
  cases hen : s.lifter.enter key p with
  | some a => exact hs.record_answered (hs.enter_eq hkey hp hen)
  | none =>
    refine { hs with pending := ?_ }
    intro q hq
    rcases List.mem_append.1 hq with hq | hq
    · exact hs.pending q hq
    · rw [List.mem_singleton.1 hq]
      exact ⟨hp, defect?_of_enter hen⟩

/-- Keeping the module of an acceptable program, and recording that. -/
theorem Sound.insert (hs : s.Sound key settings used) (hp : p ∈ used) (hdefect : p.defect? = none)
    (hcache : settings.cacheModules = true) {m : LiftedModule} (hm : lower settings p = .ok (.ok m)) :
    Sound key settings used
      ({ s with lifter := { s.lifter with cache := s.lifter.cache.insert (key p) m } }.record
        [.inserted p]) where
  settings_eq := hs.settings_eq
  answered q b hq := by
    rcases List.mem_cons.1 hq with hq | hq
    · cases hq
    · exact hs.answered q b hq
  pending := hs.pending
  inserted q hq := by
    rcases List.mem_cons.1 hq with rfl | hq
    · exact ⟨hp, hcache⟩
    · exact hs.inserted q hq
  keys := by
    show (key p :: (s.lifter.cache.entries.filter _).map Prod.fst).Nodup
    rw [List.nodup_cons]
    refine ⟨fun hmem => ?_, hs.keys.sublist (List.filter_sublist.map _)⟩
    obtain ⟨entry, hentry, hfst⟩ := List.mem_map.1 hmem
    exact of_decide_eq_true (List.mem_filter.1 hentry).2 hfst
  entries k m' h := by
    rcases List.mem_cons.1 h with h | h
    · cases h
      exact ⟨p, List.mem_cons_self, rfl, hdefect, hm⟩
    · obtain ⟨q, hq, hrest⟩ := hs.entries k m' (List.mem_filter.1 h).1
      exact ⟨q, List.mem_cons_of_mem _ hq, hrest⟩
  kept q hq := by
    show key q ∈ key p :: (s.lifter.cache.entries.filter _).map Prod.fst
    by_cases hqp : key q = key p
    · rw [hqp]
      exact List.mem_cons_self
    · refine List.mem_cons_of_mem _ ?_
      -- `q` is not `p`, so it was inserted before, and its entry is not the one that is replaced
      have hq : q ∈ insertedSince s.log := by
        rcases List.mem_cons.1 hq with rfl | hq
        · exact absurd rfl hqp
        · exact hq
      obtain ⟨entry, hentry, hfst⟩ := List.mem_map.1 (hs.kept q hq)
      exact List.mem_map.2 ⟨entry, List.mem_filter.2 ⟨hentry, by simp [hfst, hqp]⟩, hfst⟩

theorem Sound.leave (hs : s.Sound key settings used) (hp : p ∈ used) (hdefect : p.defect? = none) :
    (s.leave key p).Sound key settings used := by
  obtain rfl := hs.settings_eq
  have ha : lower s.lifter.settings p = Lifter.uncached key s.lifter.settings p :=
    (Lifter.uncached_of_sound hdefect).symm
  unfold Session.leave departure Lifter.leave Lifter.keeps
  rcases hlower : lower s.lifter.settings p with f | f | m
  · exact hs.record_answered (hlower ▸ ha)
  · exact hs.record_answered (hlower ▸ ha)
  · simp only [Lifter.remember]
    cases hcache : s.lifter.settings.cacheModules with
    | false => exact hs.record_answered (hlower ▸ ha)
    | true => exact (hs.insert hp hdefect hcache hlower).record_answered (hlower ▸ ha)

theorem Sound.clear (hs : s.Sound key settings used) :
    Sound key settings used ({ s with lifter := s.lifter.clear }.record [.cleared]) where
  settings_eq := hs.settings_eq
  answered q b hq := by
    rcases List.mem_cons.1 hq with hq | hq
    · cases hq
    · exact hs.answered q b hq
  pending := hs.pending
  inserted _ h := nomatch h
  keys := List.nodup_nil
  entries _ _ h := nomatch h
  kept _ h := nomatch h

/-- Each action keeps the invariant. -/
theorem Sound.step (hs : s.Sound key settings used) (hkey : Set.InjOn key used) {action : Action}
    (hused : ∀ p, action.program? = some p → p ∈ used) :
    (s.step key action).Sound key settings used := by
  cases action with
  | call p =>
    have hp : p ∈ used := hused p rfl
    show (s.call key p).Sound key settings used
    rw [call_eq_steps]
    cases hen : s.lifter.enter key p with
    | some a => exact hs.record_answered (hs.enter_eq hkey hp hen)
    | none => exact hs.leave hp (defect?_of_enter hen)
  | enter p => exact hs.enter hkey (hused p rfl)
  | leave n =>
    show (s.resume key n).Sound key settings used
    unfold resume
    cases hn : s.pending[n]? with
    | none => exact hs
    | some p =>
      obtain ⟨hp, hdefect⟩ := hs.pending p (List.mem_of_getElem? hn)
      have herase : Sound key settings used { s with pending := s.pending.eraseIdx n } :=
        { hs with pending := fun q hq => hs.pending q (List.mem_of_mem_eraseIdx hq) }
      exact herase.leave hp hdefect
  | clear => exact hs.clear

/-- The programs that a list of actions calls. -/
def programs (actions : List Action) : List Program :=
  actions.filterMap Action.program?

theorem Sound.foldl (hkey : Set.InjOn key used) (actions : List Action)
    (hused : ∀ p ∈ programs actions, p ∈ used) (hs : s.Sound key settings used) :
    (actions.foldl (Session.step key) s).Sound key settings used := by
  induction actions generalizing s with
  | nil => exact hs
  | cons action actions ih =>
    refine ih (fun p hp => hused p ?_) (hs.step hkey fun p hp => hused p ?_)
    · obtain ⟨action', hmem, hp⟩ := List.mem_filterMap.1 hp
      exact List.mem_filterMap.2 ⟨action', List.mem_cons_of_mem _ hmem, hp⟩
    · exact List.mem_filterMap.2 ⟨action, List.mem_cons_self, hp⟩

/-- The cache has one entry for each program that was inserted since the last clear. -/
theorem Sound.size_eq (hs : s.Sound key settings used) (hkey : Set.InjOn key used) :
    s.lifter.cache.size = (insertedSince s.log).dedup.length := by
  have hinj : ((insertedSince s.log).dedup.map key).Nodup := by
    refine List.Nodup.map_on (fun p hp q hq h => ?_) (List.nodup_dedup _)
    exact hkey (hs.inserted p (List.mem_dedup.1 hp)).1 (hs.inserted q (List.mem_dedup.1 hq)).1 h
  have hperm : (s.lifter.cache.entries.map Prod.fst).Perm ((insertedSince s.log).dedup.map key) := by
    rw [List.perm_ext_iff_of_nodup hs.keys hinj]
    intro k
    constructor
    · intro hk
      obtain ⟨⟨k, m⟩, hmem, rfl⟩ := List.mem_map.1 hk
      obtain ⟨p, hp, hkey', -⟩ := hs.entries k m hmem
      exact List.mem_map.2 ⟨p, List.mem_dedup.2 hp, hkey'⟩
    · intro hk
      obtain ⟨p, hp, rfl⟩ := List.mem_map.1 hk
      exact hs.kept p (List.mem_dedup.1 hp)
  simpa [Cache.size] using hperm.length_eq

theorem Sound.insertedSince_eq_nil (hs : s.Sound key settings used)
    (h : settings.cacheModules = false) : insertedSince s.log = [] := by
  rw [List.eq_nil_iff_forall_not_mem]
  intro p hp
  rw [(hs.inserted p hp).2] at h
  cases h

/-! ## Every call is answered -/

omit [DecidableEq κ] in
theorem answers_departure (l : Lifter κ) : answers (departure l p a) = [p] := by
  unfold departure
  split <;> rfl

omit [DecidableEq κ] in
theorem answers_record (events : List Event) :
    answers (s.record events).log = answers events ++ answers s.log :=
  List.filterMap_append

theorem answers_leave : answers (s.leave key p).log = p :: answers s.log := by
  unfold Session.leave
  rw [answers_record, answers_departure]
  rfl

/-- An action answers calls or lets them wait, and loses none. -/
theorem step_perm (action : Action) :
    (answers (s.step key action).log ++ (s.step key action).pending).Perm
      (action.program?.toList ++ (answers s.log ++ s.pending)) := by
  cases action with
  | call p =>
    show (answers (s.call key p).log ++ (s.call key p).pending).Perm _
    rw [call_eq_steps]
    cases s.lifter.enter key p with
    | some a => exact List.Perm.refl _
    | none =>
      show (answers (s.leave key p).log ++ s.pending).Perm _
      rw [answers_leave]
      exact List.Perm.refl _
  | enter p =>
    show (answers (s.enter key p).log ++ (s.enter key p).pending).Perm _
    unfold Session.enter
    cases s.lifter.enter key p with
    | some a => exact List.Perm.refl _
    | none =>
      show (answers s.log ++ (s.pending ++ [p])).Perm (p :: (answers s.log ++ s.pending))
      rw [← List.append_assoc]
      exact List.perm_append_singleton p _
  | leave n =>
    show (answers (s.resume key n).log ++ (s.resume key n).pending).Perm (answers s.log ++ s.pending)
    unfold resume
    cases hn : s.pending[n]? with
    | none => exact List.Perm.refl _
    | some p =>
      show (answers (Session.leave key _ p).log ++ s.pending.eraseIdx n).Perm _
      rw [answers_leave]
      have hperm : (p :: s.pending.eraseIdx n).Perm s.pending := by
        obtain ⟨hlt, rfl⟩ := List.getElem?_eq_some_iff.1 hn
        exact List.getElem_cons_eraseIdx_perm hlt
      exact List.perm_middle.symm.trans (hperm.append_left _)
  | clear => exact List.Perm.refl _

theorem foldl_perm (actions : List Action) :
    (answers (actions.foldl (Session.step key) s).log ++
        (actions.foldl (Session.step key) s).pending).Perm
      (programs actions ++ (answers s.log ++ s.pending)) := by
  induction actions generalizing s with
  | nil => exact List.Perm.refl _
  | cons action actions ih =>
    refine ih.trans (((step_perm action).append_left _).trans ?_)
    have hprograms : programs (action :: actions) = action.program?.toList ++ programs actions := by
      unfold programs
      cases h : action.program? with
      | none => simp [h]
      | some p => simp [h]
    rw [hprograms, ← List.append_assoc]
    exact List.perm_append_comm.append_right _

end Session

/-- The cache is transparent, in whatever order the steps of calls and clears come. -/
theorem run_transparent {κ : Type} [DecidableEq κ] {key : Program → κ}
    (settings : LiftSettings) (actions : List Action)
    (hkey : Set.InjOn key {p | p ∈ Session.programs actions}) :
    let s := Session.run key settings actions
    -- every call is answered or waits, and every answer is the one that no cache has changed
    (answers s.log ++ s.pending).Perm (Session.programs actions) ∧
    (∀ p a, .answered p a ∈ s.log → a = Lifter.uncached key settings p) ∧
    -- the cache has modules of acceptable programs under their keys, and of no program that fails
    (∀ k m, (k, m) ∈ s.lifter.cache.entries →
      ∃ p, key p = k ∧ p.defect? = none ∧ Lifter.uncached key settings p = .ok (.ok m)) ∧
    (∀ p ∈ Session.programs actions, (∀ m, Lifter.uncached key settings p ≠ .ok (.ok m)) →
      s.lifter.cache.lookup (key p) = none) ∧
    s.lifter.cache.size = (insertedSince s.log).dedup.length ∧
    (settings.cacheModules = false → s.lifter.cache.size = 0) := by
  have hs : (Session.run key settings actions).Sound key settings {p | p ∈ Session.programs actions} :=
    Session.sound_start.foldl hkey actions fun p hp => hp
  refine ⟨?_, hs.answered, ?_, ?_, hs.size_eq hkey, ?_⟩
  · exact Session.foldl_perm actions |>.trans (by simp [answers])
  · intro k m h
    obtain ⟨p, -, hp, hdefect, hlower⟩ := hs.entries k m h
    exact ⟨p, hp, hdefect, (Lifter.uncached_of_sound hdefect).trans hlower⟩
  · intro p hp hfails
    cases hlookup : (Session.run key settings actions).lifter.cache.lookup (key p) with
    | none => rfl
    | some m =>
      obtain ⟨hdefect, hlower⟩ := hs.lower_of_mem hkey hp (Lifter.mem_entries_of_lookup hlookup)
      exact absurd ((Lifter.uncached_of_sound hdefect).trans hlower) (hfails m)
  · intro hcache
    rw [hs.size_eq hkey, hs.insertedSince_eq_nil hcache]
    rfl

/-- Two calls of one program that both find nothing, with a clear between the modules that they keep,
and a third call that finds the second module. -/
def overlappingCalls : List Action :=
  [.enter gradientProgram, .enter gradientProgram, .leave 0, .clear, .leave 0, .call gradientProgram]

theorem run_transparent_overlappingCalls :
    Set.InjOn id {p | p ∈ Session.programs overlappingCalls} ∧
    let s := Session.run id {} overlappingCalls
    (answers s.log ++ s.pending).Perm [gradientProgram, gradientProgram, gradientProgram] ∧
    (∀ p a, .answered p a ∈ s.log → a = Lifter.uncached id {} p) ∧
    s.lifter.cache.size = (insertedSince s.log).dedup.length := by
  have hkey : Set.InjOn id {p | p ∈ Session.programs overlappingCalls} := fun p _ q _ h => h
  obtain ⟨hperm, hanswers, -, -, hsize, -⟩ := run_transparent {} overlappingCalls hkey
  exact ⟨hkey, hperm, hanswers, hsize⟩

end TextureLift
