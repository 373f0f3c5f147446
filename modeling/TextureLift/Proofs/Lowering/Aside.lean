import TextureLift.Proofs.Lowering.Plan
import TextureLift.Shader.Lift

/-!
# What lowering does not look at

Lowering a query reads the code, the samplers and the inputs of a context, and writes code and inputs.
A change `g` of contexts that stays clear of all these is `Aside`, and lowering comes to the same before
and after it:

    a (g c) = (a c).map (Prod.map id g)      (Ignores g a)

Lowering a word writes the listing too. The counts stay clear of all of it, and so does what to do with
failures.
-/

namespace TextureLift

open Build Lowering

namespace Context

/-- The context with other inputs. -/
def withInputs (c : Context) (inputs : WordMap Ref) : Context :=
  { c with inputs }

/-- The change leaves alone what lowering reads, and what lowering writes leaves the change alone. -/
structure Aside (g : Context → Context) : Prop where
  emitter : ∀ c, (g c).toEmitter = c.toEmitter
  samplers : ∀ c, (g c).samplers = c.samplers
  inputs : ∀ c, (g c).inputs = c.inputs
  emitting : ∀ c s, g (c.emitting s) = (g c).emitting s
  withInputs : ∀ c inputs, g (c.withInputs inputs) = (g c).withInputs inputs

/-- The action comes to the same before and after the change. -/
def Ignores {α : Type} (g : Context → Context) (a : Lower α) : Prop :=
  ∀ c, a (g c) = (a c).map (Prod.map id g)

variable {α β : Type} {g : Context → Context}

namespace Ignores

theorem pure (v : α) : Ignores g (Pure.pure v) :=
  fun _ => rfl

theorem bind {a : Lower α} {f : α → Lower β} (ha : Ignores g a) (hf : ∀ v, Ignores g (f v)) :
    Ignores g (a >>= f) := by
  intro c
  show (a (g c) >>= fun r => f r.1 r.2) = (a c >>= fun r => f r.1 r.2).map _
  rw [ha c]
  cases a c with
  | error fault => rfl
  | ok r => exact hf r.1 r.2

/-- The contexts after the action differ by the change alone. -/
theorem state {a : Lower α} (ha : Ignores g a) (c : Context) :
    (a (g c) >>= fun r => .ok r.2) = (a c >>= fun r => .ok r.2).map g := by
  rw [ha c]
  cases a c <;> rfl

theorem mapM {f : α → Lower β} (hf : ∀ v, Ignores g (f v)) (l : List α) : Ignores g (l.mapM f) := by
  induction l with
  | nil => exact pure []
  | cons v l ih =>
    rw [List.mapM_cons]
    exact (hf v).bind fun w => ih.bind fun ws => pure (w :: ws)

/-- The context may be looked at where the change is not. -/
theorem read {f : Context → Lower α} (hf : ∀ c, f (g c) = f c) (h : ∀ c, Ignores g (f c)) :
    Ignores g (get >>= f) := by
  intro c
  show f (g c) (g c) = (f c c).map _
  rw [hf]
  exact h c c

/-- Emitting code is all the same. -/
theorem lift (hg : Aside g) (a : Emit α) : Ignores g (liftM a) := by
  intro c
  show (a (g c).toEmitter >>= fun r => Except.ok (r.1, (g c).emitting r.2)) =
    (a c.toEmitter >>= fun r => Except.ok (r.1, c.emitting r.2)).map _
  rw [hg.emitter]
  cases a c.toEmitter with
  | error fault => rfl
  | ok r => exact congrArg (fun c => Except.ok (r.1, c)) (hg.emitting c r.2).symm

end Ignores

/-! ## Queries -/

theorem inputAt_ignores (hg : Aside g) (location : UInt32) : Ignores g (inputAt location) := by
  refine Ignores.read (fun c => by simp only [hg.inputs]) fun c => ?_
  cases c.inputs[location]? with
  | some id => exact .pure id
  | none =>
    refine (Ignores.lift hg _).bind fun vec => (Ignores.lift hg _).bind fun id =>
      (Ignores.lift hg _).bind fun _ => Ignores.bind (fun c => ?_) fun _ => .pure id
    show Except.ok ((), (g c).withInputs ((g c).inputs.insert location id)) =
      Except.ok ((), g (c.withInputs (c.inputs.insert location id)))
    rw [hg.inputs, hg.withInputs]

theorem resolveQuery_ignores (hg : Aside g) (q : QueryDesc) : Ignores g (resolveQuery q) :=
  (inputAt_ignores hg q.coordLocation).bind fun _ =>
    .read (fun c => by simp only [hg.samplers]) fun _ => .pure _

theorem emitQueries_ignores (hg : Aside g) (queries : List Query) :
    Ignores g (emitQueries queries) := by
  induction queries with
  | nil => exact .pure 0
  | cons q queries ih =>
    refine Ignores.read (fun c => by simp only [hg.samplers]) fun c => ?_
    cases c.samplers.get? q.sampler with
    | none => exact ih
    | some sampler => exact (Ignores.lift hg _).bind fun _ => ih.bind fun n => .pure (n + 1)

/-! ## Words -/

theorem lowerSample_ignores (hg : Aside g) (hl : ∀ c line, g (c.listed line) = (g c).listed line)
    (s : Sample) : Ignores g (lowerSample s).run := by
  intro c
  rw [lowerSample_run, lowerSample_run, hg.samplers, hg.emitter]
  cases plan c.samplers c.registers s with
  | error fault => rfl
  | ok v =>
    cases v with
    | fails failure => rfl
    | skips reason => rfl
    | passes p =>
      show ((emitSample p).run c.toEmitter >>= fun r => _) =
        ((emitSample p).run c.toEmitter >>= fun r => _).map _
      cases (emitSample p).run c.toEmitter with
      | error fault => rfl
      | ok r =>
        show Except.ok (_, ((g c).listed _).emitting r.2) = Except.ok (_, g ((c.listed _).emitting r.2))
        rw [hg.emitting, hl]
        rfl

theorem lowerWord_ignores (hg : Aside g) (hl : ∀ c line, g (c.listed line) = (g c).listed line)
    (word : UInt64) : Ignores g (lowerWord word).run := by
  unfold lowerWord
  cases Sample.decode? word with
  | none => exact .pure _
  | some s => exact lowerSample_ignores hg hl s

end Context

end TextureLift
