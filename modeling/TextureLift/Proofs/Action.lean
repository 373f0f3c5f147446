import Mathlib.Data.List.Forall2
import TextureLift.Fault

/-!
# Specifications of actions

An action on a state ends in a fault or in a result and a new state. A discipline says what actions
keep of the state, how the states before and after an action are related, and which faults are
allowed. `Discipline.Ensures` is the specification of one action from one state:

    D.keeps s → a s ends in a fault of `D.faults`, or in a result `v` and a state `t` with
      D.keeps t ∧ D.leads s t ∧ Q v t

Specifications of sequences are put together with `Ensures.bind`. `Discipline.Yields` and
`Discipline.Succeeds` say the same of actions that may return nothing or fail, and that they do not.
-/

namespace TextureLift

/-- What actions keep, how they change the state and how they may fail. -/
structure Discipline (σ : Type) where
  keeps : σ → Prop
  leads : σ → σ → Prop
  faults : Fault → Prop
  refl : ∀ s, leads s s
  trans : ∀ {s t u}, leads s t → leads t u → leads s u

/-- Facts about the second of two lists alone. -/
theorem forall_of_forall₂ {α β : Type} {R : β → Prop} {as : List α} {bs : List β}
    (h : List.Forall₂ (fun _ b => R b) as bs) : ∀ b ∈ bs, R b := by
  induction h with
  | nil => simp
  | cons hb _ ih => exact List.forall_mem_cons.2 ⟨hb, ih⟩

theorem getElem?_of_forall₂ {α β : Type} {R : α → β → Prop} {as : List α} {bs : List β}
    (h : List.Forall₂ R as bs) {n : Nat} {b : β} (hb : bs[n]? = some b) :
    ∃ a, as[n]? = some a ∧ R a b := by
  induction h generalizing n with
  | nil => simp at hb
  | @cons a b' as bs hab _ ih =>
    cases n with
    | zero =>
      obtain rfl := Option.some.inj hb
      exact ⟨a, rfl, hab⟩
    | succ n => exact ih hb

theorem exists_of_forall₂_append {α β : Type} {R : α → β → Prop} {as as' : List α} {bs : List β}
    (h : List.Forall₂ R (as ++ as') bs) :
    ∃ bs₁ bs₂, bs = bs₁ ++ bs₂ ∧ List.Forall₂ R as bs₁ ∧ List.Forall₂ R as' bs₂ := by
  induction as generalizing bs with
  | nil => exact ⟨[], bs, rfl, .nil, h⟩
  | cons a as ih =>
    cases h with
    | @cons _ b _ bs hab h =>
      obtain ⟨bs₁, bs₂, rfl, h₁, h₂⟩ := ih h
      exact ⟨b :: bs₁, bs₂, rfl, .cons hab h₁, h₂⟩

namespace Discipline

variable {σ α β : Type} {D : Discipline σ}

/-- From the state `s`, the action meets the discipline and `Q`. -/
def Ensures (D : Discipline σ) (a : StateT σ (Except Fault) α) (s : σ) (Q : α → σ → Prop) : Prop :=
  D.keeps s → match a s with
    | .ok (v, t) => D.keeps t ∧ D.leads s t ∧ Q v t
    | .error f => D.faults f

namespace Ensures

variable {a : StateT σ (Except Fault) α} {s : σ} {P Q : α → σ → Prop}

/-- What is known of a result that an action returned. -/
theorem result (h : D.Ensures a s Q) (hs : D.keeps s) {v : α} {t : σ} (ha : a s = .ok (v, t)) :
    D.keeps t ∧ D.leads s t ∧ Q v t := by
  have h1 := h hs
  rw [ha] at h1
  exact h1

theorem fault (h : D.Ensures a s Q) (hs : D.keeps s) {f : Fault} (ha : a s = .error f) :
    D.faults f := by
  have h1 := h hs
  rw [ha] at h1
  exact h1

theorem of_ok {v : α} {t : σ} (ha : a s = .ok (v, t))
    (h : D.keeps s → D.keeps t ∧ D.leads s t ∧ Q v t) : D.Ensures a s Q := by
  intro hs
  rw [ha]
  exact h hs

theorem of_error {f : Fault} (ha : a s = .error f) (h : D.faults f) : D.Ensures a s Q := by
  intro hs
  rw [ha]
  exact h

theorem assume (h : D.keeps s → D.Ensures a s Q) : D.Ensures a s Q :=
  fun hs => h hs hs

theorem pure (v : α) (h : Q v s) : D.Ensures (Pure.pure v) s Q :=
  fun hs => ⟨hs, D.refl s, h⟩

/-- What follows from the outcome, in a state that is kept. -/
theorem imp_of_keeps (h : D.Ensures a s P)
    (hpq : ∀ v t, D.keeps t → D.leads s t → P v t → Q v t) : D.Ensures a s Q := by
  intro hs
  have h1 := h hs
  revert h1
  cases a s with
  | error f => exact id
  | ok r => exact fun ⟨h1, h2, h3⟩ => ⟨h1, h2, hpq _ _ h1 h2 h3⟩

theorem imp (h : D.Ensures a s P) (hpq : ∀ v t, D.leads s t → P v t → Q v t) :
    D.Ensures a s Q :=
  h.imp_of_keeps fun v t _ => hpq v t

theorem bind {f : α → StateT σ (Except Fault) β} {Q : β → σ → Prop} (h : D.Ensures a s P)
    (hf : ∀ v t, D.leads s t → P v t → D.Ensures (f v) t Q) : D.Ensures (a >>= f) s Q := by
  intro hs
  have h1 := h hs
  show match (a s >>= fun r => f r.1 r.2) with
    | .ok (v, t) => _
    | .error f => _
  revert h1
  cases a s with
  | error f => exact id
  | ok r =>
    rintro ⟨hk, hl, hp⟩
    have h2 := hf r.1 r.2 hl hp hk
    revert h2
    show _ → match f r.1 r.2 with
      | .ok (v, t) => _
      | .error f => _
    cases f r.1 r.2 with
    | error f => exact id
    | ok r' => exact fun ⟨h3, h4, h5⟩ => ⟨h3, D.trans hl h4, h5⟩

/-- Reading the state changes nothing. -/
theorem get_bind {f : σ → StateT σ (Except Fault) β} {Q : β → σ → Prop}
    (h : D.Ensures (f s) s Q) : D.Ensures (get >>= f) s Q :=
  h

/-- A computation that does not look at the state. -/
theorem lift {x : Except Fault α} {Q : α → σ → Prop} (h : ∀ v, x = .ok v → Q v s)
    (hf : ∀ f, x = .error f → D.faults f) : D.Ensures (liftM x) s Q := by
  intro hs
  show match (x >>= fun v => Except.ok (v, s)) with
    | .ok (v, t) => _
    | .error f => _
  cases hx : x with
  | error f => exact hf f hx
  | ok v => exact ⟨hs, D.refl s, h v hx⟩

/-- An action for each element of a list, each of which leaves a lasting result. -/
theorem mapM {f : α → StateT σ (Except Fault) β} {R : α → β → σ → Prop} (l : List α)
    (hR : ∀ a v s t, D.leads s t → R a v s → R a v t)
    (hf : ∀ a ∈ l, ∀ t, D.leads s t → D.Ensures (f a) t (R a)) :
    D.Ensures (l.mapM f) s fun vs t => List.Forall₂ (fun a v => R a v t) l vs := by
  induction l generalizing s with
  | nil => exact pure _ .nil
  | cons a l ih =>
    rw [List.mapM_cons]
    refine (hf a (List.mem_cons_self ..) s (D.refl s)).bind fun v t hl hv => ?_
    refine (ih fun a' ha t' hl' => hf a' (List.mem_cons_of_mem a ha) t' (D.trans hl hl')).bind
      fun vs u hl' hvs => pure _ (.cons (hR a v t u hl' hv) hvs)

/-- An action for each element of a list, each of which goes on from the result of the one before. -/
theorem foldlM {f : β → α → StateT σ (Except Fault) β} {R : List α → β → σ → Prop} (l : List α)
    {past : List α} {v : β} (h : R past v s)
    (hf : ∀ past a v t, R past v t → D.Ensures (f v a) t (R (past ++ [a]))) :
    D.Ensures (l.foldlM f v) s (R (past ++ l)) := by
  induction l generalizing s past v with
  | nil =>
    rw [List.append_nil]
    exact pure v h
  | cons a l ih =>
    rw [List.foldlM_cons]
    refine (hf past a v s h).bind fun w t _ hw => ?_
    have hrest := ih hw
    rw [List.append_assoc] at hrest
    exact hrest

/-- A weaker discipline asks for less. -/
theorem weaken {D' : Discipline σ} (h : D.Ensures a s Q) (hk : D'.keeps s → D.keeps s)
    (hr : ∀ v t, D.keeps t → D.leads s t → Q v t → D'.keeps t ∧ D'.leads s t)
    (hf : ∀ f, D.faults f → D'.faults f) :
    D'.Ensures a s Q := by
  intro hs
  have h1 := h (hk hs)
  revert h1
  cases a s with
  | error f => exact hf f
  | ok r => exact fun ⟨h1, h2, h3⟩ => ⟨(hr _ _ h1 h2 h3).1, (hr _ _ h1 h2 h3).2, h3⟩

end Ensures

/-! ## Actions that leave a view alone -/

section Still

variable {τ : Type} {a : StateT σ (Except Fault) α} {s : σ} {Q : α → σ → Prop}

/-- A step after which a view of the state is what it was, if the state after it is one that is seen. -/
structure Still (leads : σ → σ → Prop) (Sees : σ → Prop) (view : σ → τ) (s t : σ) : Prop where
  moves : leads s t
  same : Sees t → view t = view s

/-- The actions of a discipline that leave a view alone. -/
def still (D : Discipline σ) (Sees : σ → Prop) (view : σ → τ)
    (back : ∀ {s t}, D.leads s t → Sees t → Sees s) : Discipline σ where
  keeps := D.keeps
  leads := Still D.leads Sees view
  faults := D.faults
  refl s := ⟨D.refl s, fun _ => rfl⟩
  trans h h' := ⟨D.trans h.moves h'.moves,
    fun ht => (h'.same ht).trans (h.same (back h'.moves ht))⟩

/-- What an action that leaves a view alone does, with that as a fact. -/
theorem Ensures.of_still {Sees : σ → Prop} {view : σ → τ}
    {back : ∀ {s t}, D.leads s t → Sees t → Sees s} (h : (D.still Sees view back).Ensures a s Q) :
    D.Ensures a s fun v t => Still D.leads Sees view s t ∧ Q v t :=
  (h.imp fun _ _ hl hQ => ⟨hl, hQ⟩).weaken (fun hk => hk) (fun _ _ hk hl _ => ⟨hk, hl.moves⟩)
    fun _ hf => hf

end Still

/-! ## Actions that may come to nothing -/

/-- The optional action meets the discipline and returns a value with `Q`. -/
def Yields (D : Discipline σ) (a : OptionT (StateT σ (Except Fault)) α) (s : σ)
    (Q : α → σ → Prop) : Prop :=
  D.Ensures a.run s fun o t => ∃ v, o = some v ∧ Q v t

namespace Yields

variable {a : OptionT (StateT σ (Except Fault)) α} {s : σ} {P Q : α → σ → Prop}

theorem lift {a : StateT σ (Except Fault) α} (h : D.Ensures a s P) : D.Yields (liftM a) s P :=
  h.bind fun v _ _ hv => Ensures.pure (some v) ⟨v, rfl, hv⟩

theorem pure (v : α) (h : Q v s) : D.Yields (Pure.pure v) s Q :=
  Ensures.pure (some v) ⟨v, rfl, h⟩

theorem imp (h : D.Yields a s P) (hpq : ∀ v t, D.leads s t → P v t → Q v t) : D.Yields a s Q :=
  Ensures.imp h fun _ t hl ⟨v, ho, hv⟩ => ⟨v, ho, hpq v t hl hv⟩

theorem bind {f : α → OptionT (StateT σ (Except Fault)) β} {Q : β → σ → Prop}
    (h : D.Yields a s P) (hf : ∀ v t, D.leads s t → P v t → D.Yields (f v) t Q) :
    D.Yields (a >>= f) s Q := by
  show D.Ensures (a >>= f).run s _
  rw [OptionT.run_bind]
  refine Ensures.bind h fun o t hl ho => ?_
  obtain ⟨v, rfl, hv⟩ := ho
  exact hf v t hl hv

/-- An action for each element of a list, each of which returns a lasting result. -/
theorem mapM {f : α → OptionT (StateT σ (Except Fault)) β} {R : α → β → σ → Prop} (l : List α)
    (hR : ∀ a v s t, D.leads s t → R a v s → R a v t)
    (hf : ∀ a ∈ l, ∀ t, D.leads s t → D.Yields (f a) t (R a)) :
    D.Yields (l.mapM f) s fun vs t => List.Forall₂ (fun a v => R a v t) l vs := by
  induction l generalizing s with
  | nil => exact pure _ .nil
  | cons a l ih =>
    rw [List.mapM_cons]
    refine (hf a (List.mem_cons_self ..) s (D.refl s)).bind fun v t hl hv => ?_
    refine (ih fun a' ha t' hl' => hf a' (List.mem_cons_of_mem a ha) t' (D.trans hl hl')).bind
      fun vs u hl' hvs => pure _ (.cons (hR a v t u hl' hv) hvs)

end Yields

/-- The action that may fail meets the discipline and returns a value with `Q`. -/
def Succeeds {ε : Type} (D : Discipline σ) (a : ExceptT ε (StateT σ (Except Fault)) α) (s : σ)
    (Q : α → σ → Prop) : Prop :=
  D.Ensures a.run s fun r t => ∃ v, r = .ok v ∧ Q v t

namespace Succeeds

variable {ε : Type} {a : ExceptT ε (StateT σ (Except Fault)) α} {s : σ} {P Q : α → σ → Prop}

theorem lift {a : StateT σ (Except Fault) α} (h : D.Ensures a s P) :
    D.Succeeds (liftM a : ExceptT ε (StateT σ (Except Fault)) α) s P := by
  show D.Ensures (ExceptT.run (ExceptT.lift a)) s _
  rw [ExceptT.run_lift]
  exact h.bind fun v _ _ hv => Ensures.pure (Except.ok v) ⟨v, rfl, hv⟩

/-- Two actions that cannot fail, one after the other. -/
theorem lift_bind {a : StateT σ (Except Fault) α} {f : α → StateT σ (Except Fault) β}
    {Q : β → σ → Prop} (h : D.Ensures (a >>= f) s Q) :
    D.Succeeds ((liftM a : ExceptT ε (StateT σ (Except Fault)) α) >>= fun v => liftM (f v)) s Q := by
  rw [← monadLift_bind]
  exact lift h

theorem pure (v : α) (h : Q v s) :
    D.Succeeds (Pure.pure v : ExceptT ε (StateT σ (Except Fault)) α) s Q :=
  Ensures.pure (Except.ok v) ⟨v, rfl, h⟩

theorem imp (h : D.Succeeds a s P) (hpq : ∀ v t, D.leads s t → P v t → Q v t) :
    D.Succeeds a s Q :=
  Ensures.imp h fun _ t hl ⟨v, ho, hv⟩ => ⟨v, ho, hpq v t hl hv⟩

/-- What follows an action that does not fail decides how the sequence ends. -/
theorem bind_run {f : α → ExceptT ε (StateT σ (Except Fault)) β} {Q : Except ε β → σ → Prop}
    (h : D.Succeeds a s P) (hf : ∀ v t, D.leads s t → P v t → D.Ensures (f v).run t Q) :
    D.Ensures (a >>= f).run s Q := by
  rw [ExceptT.run_bind]
  refine Ensures.bind h fun r t hl hr => ?_
  obtain ⟨v, rfl, hv⟩ := hr
  exact hf v t hl hv

theorem bind {f : α → ExceptT ε (StateT σ (Except Fault)) β} {Q : β → σ → Prop}
    (h : D.Succeeds a s P) (hf : ∀ v t, D.leads s t → P v t → D.Succeeds (f v) t Q) :
    D.Succeeds (a >>= f) s Q :=
  h.bind_run hf

end Succeeds

end Discipline

end TextureLift
