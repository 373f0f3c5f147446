import TextureLift.Proofs.Lowering.Correctness
import TextureLift.Proofs.Module.Order
import TextureLift.Shader.Lifter

/-!
# Modules of lifters

A lifter answers from its cache, but every module in the cache was lowered before, from a program with
the same key. So all that lowering guarantees of its modules holds for every answer:

    l.Reachable key → l.lift key p = .ok (.ok m, l') → ∃ q, key q = key p ∧ m.LoweredFrom l.settings q

The program is the one that was asked for unless the key takes it for a program lifted before. The
programs that count are those since the modules were last forgotten, `l.Lifted key earlier`, and a
lifter without a cache has nothing to take it for.

In particular the definitions of every module that a lifter returns are in order, and its function is
straight-line code in a frame.
-/

namespace TextureLift

open Builder Lowering

namespace Lifter

variable {κ : Type} [DecidableEq κ] {key : Program → κ} {l l' : Lifter κ} {p : Program}

/-- Lifters that were started with some settings and have since lifted programs or forgotten
modules. -/
inductive Reachable (key : Program → κ) : Lifter κ → Prop
  | start (settings : LiftSettings) : Reachable key { settings }
  | lift {l l' : Lifter κ} {p : Program} {r : Except Failure LiftedModule} :
    Reachable key l → l.lift key p = .ok (r, l') → Reachable key l'
  | clear {l : Lifter κ} : Reachable key l → Reachable key l.clear

/-- Lifters with the programs that they have lifted since they were started or last forgot their
modules, the last one first. -/
inductive Lifted (key : Program → κ) : Lifter κ → List Program → Prop
  | start (settings : LiftSettings) : Lifted key { settings } []
  | lift {l l' : Lifter κ} {p : Program} {earlier : List Program} {r : Except Failure LiftedModule} :
    Lifted key l earlier → l.lift key p = .ok (r, l') → Lifted key l' (p :: earlier)
  | clear {l : Lifter κ} {earlier : List Program} : Lifted key l earlier → Lifted key l.clear []

theorem Reachable.exists_lifted (h : l.Reachable key) : ∃ earlier, l.Lifted key earlier := by
  induction h with
  | start settings => exact ⟨[], .start settings⟩
  | lift _ h ih =>
    obtain ⟨earlier, hl⟩ := ih
    exact ⟨_, .lift hl h⟩
  | clear _ ih =>
    obtain ⟨earlier, hl⟩ := ih
    exact ⟨_, .clear hl⟩

end Lifter

/-- The module was lowered, with these settings, from an acceptable program. -/
def LiftedModule.LoweredFrom (m : LiftedModule) (settings : LiftSettings) (p : Program) : Prop :=
  ∃ stats c, p.defect? = none ∧ shade settings p = .ok (.ok stats, c) ∧ m = c.finish

namespace Lifter

variable {κ : Type} [DecidableEq κ] {key : Program → κ} {l l' : Lifter κ} {p : Program}
  {earlier : List Program} {m : LiftedModule}

/-- What a successful lowering comes from. -/
theorem loweredFrom_of_lower {settings : LiftSettings} (hp : p.defect? = none)
    (h : lower settings p = .ok (.ok m)) : m.LoweredFrom settings p := by
  rw [lower_eq] at h
  obtain ⟨⟨r, c⟩, hs, h⟩ := exists_of_bind h
  cases r with
  | error f => cases h
  | ok stats =>
    cases h
    exact ⟨stats, c, hp, hs, rfl⟩

/-! ## The cache -/

theorem mem_entries_of_lookup {c : Cache κ} {k : κ} (h : c.lookup k = some m) :
    (k, m) ∈ c.entries := by
  obtain ⟨before, after, hsplit, -⟩ := List.lookup_eq_some_iff.1 h
  rw [hsplit]
  exact List.mem_append_right _ List.mem_cons_self

/-- Known modules are in the cache, which is in use. -/
theorem of_known? {k : κ} (h : l.known? k = some m) :
    l.settings.cacheModules = true ∧ (k, m) ∈ l.cache.entries := by
  unfold known? at h
  split at h
  · rename_i hcache
    exact ⟨hcache, mem_entries_of_lookup h⟩
  · cases h

/-- A program that is not known is lowered and kept. -/
theorem lift_of_lower (hp : p.defect? = none) (hk : l.known? (key p) = none)
    (h : lower l.settings p = .ok (.ok m)) :
    l.lift key p = .ok (.ok m, l.remember (key p) m) := by
  unfold lift
  rw [hp]
  dsimp only
  rw [hk]
  dsimp only
  rw [h]
  rfl

theorem lift_of_shade {stats : Stats} {c : Context} (hp : p.defect? = none)
    (hk : l.known? (key p) = none) (h : shade l.settings p = .ok (.ok stats, c)) :
    l.lift key p = .ok (.ok c.finish, l.remember (key p) c.finish) := by
  refine lift_of_lower hp hk ?_
  rw [lower_eq, h]
  rfl

/-- The modules of the cache were lowered from some of the programs, under their keys. -/
def Explained (key : Program → κ) (l : Lifter κ) (earlier : List Program) : Prop :=
  ∀ entry ∈ l.cache.entries, ∃ q ∈ earlier, key q = entry.1 ∧ entry.2.LoweredFrom l.settings q

/-- Lifting returns the module of the program, or one that the cache has under its key. It keeps the
settings and adds at most the module of the program to the cache. -/
theorem Explained.lift (hl : l.Explained key earlier) {r : Except Failure LiftedModule}
    (h : l.lift key p = .ok (r, l')) :
    (∀ m, r = .ok m → m.LoweredFrom l.settings p ∨ l.settings.cacheModules = true ∧
      ∃ q ∈ earlier, key q = key p ∧ m.LoweredFrom l.settings q) ∧
    l'.settings = l.settings ∧ l'.Explained key (p :: earlier) := by
  have hstays : l.Explained key (p :: earlier) := fun entry hentry => by
    obtain ⟨q, hq, hkey, hm⟩ := hl entry hentry
    exact ⟨q, List.mem_cons_of_mem _ hq, hkey, hm⟩
  unfold Lifter.lift at h
  cases hp : p.defect? with
  | some defect =>
    rw [hp] at h
    obtain ⟨rfl, rfl⟩ := Prod.mk.inj (Except.ok.inj h)
    exact ⟨fun m hm => (nomatch hm), rfl, hstays⟩
  | none =>
    rw [hp] at h
    cases hk : l.known? (key p) with
    | some m =>
      simp only [hk] at h
      obtain ⟨rfl, rfl⟩ := Prod.mk.inj (Except.ok.inj h)
      refine ⟨fun m' hm => ?_, rfl, hstays⟩
      obtain rfl := Except.ok.inj hm
      obtain ⟨hcache, hmem⟩ := of_known? hk
      exact .inr ⟨hcache, hl _ hmem⟩
    | none =>
      simp only [hk] at h
      obtain ⟨r', hlower, h⟩ := exists_of_bind h
      cases r' with
      | error f =>
        obtain ⟨rfl, rfl⟩ := Prod.mk.inj (Except.ok.inj h)
        exact ⟨fun m hm => (nomatch hm), rfl, hstays⟩
      | ok m =>
        obtain ⟨rfl, rfl⟩ := Prod.mk.inj (Except.ok.inj h)
        have hm : m.LoweredFrom l.settings p := loweredFrom_of_lower hp hlower
        have hsettings : (l.remember (key p) m).settings = l.settings := by
          unfold remember
          split <;> rfl
        refine ⟨fun m' hm' => by obtain rfl := Except.ok.inj hm'; exact .inl hm, hsettings,
          fun entry hentry => ?_⟩
        rw [hsettings]
        unfold remember at hentry
        split at hentry
        · rcases List.mem_cons.1 hentry with rfl | hentry
          · exact ⟨p, List.mem_cons_self, rfl, hm⟩
          · exact hstays entry (List.mem_filter.1 hentry).1
        · exact hstays entry hentry

theorem Lifted.explained (h : l.Lifted key earlier) : l.Explained key earlier := by
  induction h with
  | start settings => exact fun entry hentry => nomatch hentry
  | lift _ h ih => exact (ih.lift h).2.2
  | clear _ _ => exact fun entry hentry => nomatch hentry

/-- Every module that a lifter returns was lowered from a program of the key. -/
theorem Reachable.lift_source (hl : l.Reachable key) (h : l.lift key p = .ok (.ok m, l')) :
    ∃ q, key q = key p ∧ m.LoweredFrom l.settings q := by
  obtain ⟨earlier, hl⟩ := hl.exists_lifted
  rcases (hl.explained.lift h).1 m rfl with hm | ⟨-, q, -, hkey, hm⟩
  · exact ⟨p, rfl, hm⟩
  · exact ⟨q, hkey, hm⟩

/-- The program is the one that was asked for, unless the cache is in use and the key takes it for a
program lifted before. -/
theorem Lifted.loweredFrom (hl : l.Lifted key earlier)
    (hkey : l.settings.cacheModules = true → ∀ q ∈ earlier, key q = key p → q = p)
    (h : l.lift key p = .ok (.ok m, l')) : m.LoweredFrom l.settings p := by
  rcases (hl.explained.lift h).1 m rfl with hm | ⟨hcache, q, hq, hqkey, hm⟩
  · exact hm
  · exact hkey hcache q hq hqkey ▸ hm

end Lifter

/-! ## Order -/

/-- The function of the module is straight-line code in a frame. -/
def Builder.Framed (b : Builder) : Prop :=
  ∃ function label code, b.body.toList =
      function :: label :: (code ++ [{ opcode := .ret }, { opcode := .functionEnd }]) ∧
    function.opcode = .function ∧ label.opcode = .label ∧ ∀ i ∈ code, i.opcode.isCode

theorem Launch.Ends.framed {x : Launch} {p : Program} {r : Except Failure Stats} {c : Context}
    (h : x.Ends p r c) : c.close.Framed := by
  obtain ⟨opening, code, ⟨void, type, label, rfl⟩, hbody, hcode⟩ := h.body
  refine ⟨⟨.function, some void, some c.main, [0, type]⟩,
    { opcode := .label, result := some label }, code, ?_, rfl, rfl, fun i hi => (hcode i hi).1⟩
  rw [c.body_close, hbody]
  rfl

/-- Every module that a lifter returns is in order: each id is defined once, below the bound that the
header states, and refers to earlier definitions; and the function is straight-line code. -/
theorem lift_ordered {κ : Type} [DecidableEq κ] {key : Program → κ} {l l' : Lifter κ} {p : Program}
    {m : LiftedModule} (hl : l.Reachable key) (h : l.lift key p = .ok (.ok m, l')) :
    ∃ q stats c, key q = key p ∧ shade l.settings q = .ok (.ok stats, c) ∧
      m.words = c.close.words ∧ m.words[3]? = some c.close.bound ∧
      c.close.Ordered ∧ c.close.Framed := by
  obtain ⟨q, hkey, stats, c, hq, hshade, rfl⟩ := hl.lift_source h
  -- the order does not depend on what the module is run with
  let x : Launch := ⟨⟨fun _ _ => ⟨0, 0, 0, 0⟩, ∅⟩, fun _ => 0, l.settings.registerSlots⟩
  have hends : x.Ends q (.ok stats) c := Launch.shade_ends rfl hq hshade
  exact ⟨q, stats, c, hkey, hshade, c.words_finish, rfl, hends.wellFormed_close.ordered,
    hends.framed⟩

theorem lift_ordered_gradientProgram : ∃ m l',
    Lifter.Reachable id ({} : Lifter Program) ∧
    Lifter.lift id {} gradientProgram = .ok (.ok m, l') ∧
    ∃ q stats c, q = gradientProgram ∧ shade {} q = .ok (.ok stats, c) ∧
      m.words = c.close.words ∧ m.words[3]? = some c.close.bound ∧
      c.close.Ordered ∧ c.close.Framed := by
  obtain ⟨c, hc⟩ := exists_shade_gradientProgram
  have hlower : lower {} gradientProgram = .ok (.ok c.finish) := by
    rw [lower_eq, hc]
    rfl
  have hlift : Lifter.lift id {} gradientProgram = .ok (.ok c.finish,
      Lifter.remember {} gradientProgram c.finish) := by
    show (lower {} gradientProgram >>= fun r => _) = _
    rw [hlower]
    rfl
  exact ⟨_, _, .start {}, hlift, lift_ordered (.start {}) hlift⟩

end TextureLift
