import TextureLift.Machine.Run
import TextureLift.Proofs.Module.Table

/-!
# Runs under larger tables

The machine looks up types and constants in the table of the module that it runs. A step that
succeeds under one table succeeds under every larger one, with the same outcome:

    TableLe b b' → m.step b texels i = .ok m' → m.step b' texels i = .ok m'      (step_below)

The pointer of a load has to be in the smaller table already, since the contents of a variable that
was never written come from its type.
-/

namespace TextureLift

/-! ## Outcomes -/

/-- A sequence that ends well has parts that end well. -/
theorem exists_of_bind {ε α β : Type} {x : Except ε α} {f : α → Except ε β} {w : β}
    (h : (x >>= f) = .ok w) : ∃ v, x = .ok v ∧ f v = .ok w := by
  cases x with
  | error e => cases h
  | ok v => exact ⟨v, rfl, h⟩

/-- The same of actions on a state. -/
theorem exists_of_run_bind {σ ε α β : Type} {a : StateT σ (Except ε) α} {f : α → StateT σ (Except ε) β}
    {s : σ} {r : β × σ} (h : (a >>= f) s = .ok r) :
    ∃ v t, a s = .ok (v, t) ∧ f v t = .ok r := by
  obtain ⟨⟨v, t⟩, hv, hr⟩ := exists_of_bind (show (a s >>= fun w => f w.1 w.2) = _ from h)
  exact ⟨v, t, hv, hr⟩

theorem exists_of_map {ε α β : Type} {x : Except ε α} {f : α → β} {w : β} (h : x.map f = .ok w) :
    ∃ v, x = .ok v ∧ f v = w := by
  cases x with
  | error e => cases h
  | ok v => exact ⟨v, rfl, Except.ok.inj h⟩

/-- The same of a result that is evaluated to a part of it. -/
theorem exists_of_toOption_map {ε α β : Type} {x : Except ε α} {f : α → β} {w : β}
    (h : x.toOption.map f = some w) : ∃ v, x = .ok v ∧ f v = w := by
  cases x with
  | error e => cases h
  | ok v => exact ⟨v, rfl, Option.some.inj h⟩

/-- The second computation succeeds whenever the first does, with the same result. -/
def Below {ε α : Type} (x y : Except ε α) : Prop :=
  ∀ v, x = .ok v → y = .ok v

namespace Below

variable {ε α β : Type}

theorem refl (x : Except ε α) : Below x x :=
  fun _ h => h

theorem bind {x y : Except ε α} {f g : α → Except ε β} (h : Below x y)
    (hf : ∀ v, Below (f v) (g v)) : Below (x >>= f) (y >>= g) := by
  intro w hw
  cases hx : x with
  | error e =>
    rw [hx] at hw
    cases hw
  | ok v =>
    rw [hx] at hw
    rw [h v hx]
    exact hf v w hw

theorem mapM {f g : α → Except ε β} (h : ∀ a, Below (f a) (g a)) (l : List α) :
    Below (l.mapM f) (l.mapM g) := by
  induction l with
  | nil => exact refl _
  | cons a l ih =>
    rw [List.mapM_cons, List.mapM_cons]
    exact (h a).bind fun b => ih.bind fun bs => refl _

end Below

namespace Builder

variable {b b' : Builder}

theorem TableLe.scalarKind (h : TableLe b b') {t : Ref} {k : ScalarKind}
    (hk : b.scalarKind? t = some k) : b'.scalarKind? t = some k := by
  unfold scalarKind? at hk ⊢
  -- a type that is not declared contains only itself and has no kind
  cases ht : b.typeDecl? t with
  | none =>
    have hc : b.containedType t = t := by simp [containedType, ht]
    rw [hc, ht] at hk
    cases hk
  | some decl =>
    have hc : b'.containedType t = b.containedType t := by
      simp [containedType, ht, h.typeDecl ht]
    rw [hc]
    cases hd : b.typeDecl? (b.containedType t) with
    | none =>
      rw [hd] at hk
      cases hk
    | some decl' =>
      rw [h.typeDecl hd]
      rw [hd] at hk
      exact hk

theorem TableLe.constantValue (h : TableLe b b') {id : Ref} {v : Value}
    (hv : b.constantValue? id = some v) : b'.constantValue? id = some v := by
  unfold constantValue? at hv ⊢
  obtain ⟨⟨t, bits⟩, hc, hv⟩ := Option.bind_eq_some_iff.1 hv
  obtain ⟨k, hk, hv⟩ := Option.bind_eq_some_iff.1 hv
  have hc' := constant?_eq_some.2 (h.definition (constant?_eq_some.1 hc))
  exact Option.bind_eq_some_iff.2 ⟨(t, bits), hc', Option.bind_eq_some_iff.2 ⟨k, h.scalarKind hk, hv⟩⟩

end Builder

namespace Machine

open Builder

variable {b b' : Builder} (h : TableLe b b') (m : Machine) (i : Inst)

include h

/-! ## Operands -/

theorem value?_mono {id : Ref} {v : Value} (hv : m.value? b id = some v) :
    m.value? b' id = some v := by
  unfold value? at hv ⊢
  cases hm : m.values[id.word]? with
  | some w =>
    rw [hm] at hv
    exact hv
  | none =>
    rw [hm] at hv
    exact h.constantValue hv

theorem lookup_below (id : Ref) : Below (m.lookup b id) (m.lookup b' id) := by
  intro v hv
  unfold lookup at hv ⊢
  cases hm : m.value? b id with
  | none =>
    rw [hm] at hv
    cases hv
  | some w =>
    rw [value?_mono h m hm]
    rw [hm] at hv
    exact hv

theorem operand_below (position : Nat) : Below (m.operand b i position) (m.operand b' i position) :=
  (Below.refl _).bind fun id => lookup_below h m id

theorem floats_below (position : Nat) : Below (m.floats b i position) (m.floats b' i position) :=
  (operand_below h m i position).bind fun _ => Below.refl _

theorem scalar_below (position : Nat) : Below (m.scalar b i position) (m.scalar b' i position) :=
  (operand_below h m i position).bind fun _ => Below.refl _

theorem ofResultType_below (bits : List UInt32) :
    Below (ofResultType b i bits) (ofResultType b' i bits) := by
  intro v hv
  unfold ofResultType expect at hv ⊢
  cases ht : i.resultType with
  | none =>
    rw [ht] at hv
    cases hv
  | some t =>
    rw [ht] at hv
    simp only [Option.bind_some] at hv ⊢
    cases hk : b.scalarKind? t with
    | none =>
      rw [hk] at hv
      cases hv
    | some k =>
      rw [h.scalarKind hk]
      rw [hk] at hv
      exact hv

/-! ## Instructions -/

theorem evalExt_below : Below (m.evalExt b i) (m.evalExt b' i) := by
  unfold evalExt
  refine (Below.refl _).bind fun word => ?_
  split
  · exact (floats_below h m i 2).bind fun _ => Below.refl _
  · exact (floats_below h m i 2).bind fun _ => (floats_below h m i 3).bind fun _ =>
      (floats_below h m i 4).bind fun _ => Below.refl _
  · exact (floats_below h m i 2).bind fun _ => Below.refl _
  · exact (scalar_below h m i 2).bind fun _ => Below.refl _
  · exact Below.refl _

theorem eval_below : Below (m.eval b i) (m.eval b' i) := by
  unfold eval
  split
  · exact (Below.mapM (fun word => lookup_below h m ⟨word⟩) _).bind fun _ => ofResultType_below h i _
  · exact (operand_below h m i 0).bind fun _ => (Below.refl _).bind fun _ =>
      (Below.refl _).bind fun _ => ofResultType_below h i _
  · refine (scalar_below h m i 0).bind fun _ => (operand_below h m i 1).bind fun _ =>
      (Below.refl _).bind fun _ => ?_
    split
    · exact ofResultType_below h i _
    · exact Below.refl _
  · exact (operand_below h m i 0).bind fun _ => (operand_below h m i 1).bind fun _ =>
      (Below.refl _).bind fun _ => ofResultType_below h i _
  · exact (operand_below h m i 0).bind fun _ => (scalar_below h m i 1).bind fun _ =>
      (Below.refl _).bind fun _ => ofResultType_below h i _
  · exact (floats_below h m i 0).bind fun _ => Below.refl _
  · exact (floats_below h m i 0).bind fun _ => Below.refl _
  · exact (operand_below h m i 0).bind fun _ => Below.refl _
  · exact (operand_below h m i 0).bind fun _ => Below.refl _
  · exact (operand_below h m i 0).bind fun _ => ofResultType_below h i _
  · exact (floats_below h m i 0).bind fun _ => (floats_below h m i 1).bind fun _ => Below.refl _
  · exact (scalar_below h m i 0).bind fun _ => (scalar_below h m i 1).bind fun _ =>
      (scalar_below h m i 2).bind fun _ => (scalar_below h m i 3).bind fun _ =>
      (Below.refl _).bind fun _ => ofResultType_below h i _
  · exact (scalar_below h m i 0).bind fun _ => (scalar_below h m i 1).bind fun _ =>
      (scalar_below h m i 2).bind fun _ => (Below.refl _).bind fun _ => ofResultType_below h i _
  · exact (scalar_below h m i 0).bind fun _ => (scalar_below h m i 1).bind fun _ =>
      (scalar_below h m i 2).bind fun _ => (Below.refl _).bind fun _ => ofResultType_below h i _
  · exact evalExt_below h m i
  · exact Below.refl _

theorem sampleCall_below : Below (m.sampleCall b i) (m.sampleCall b' i) := by
  unfold sampleCall
  refine (operand_below h m i 0).bind fun v => ?_
  cases v with
  | lanes kind bits => exact Below.refl _
  | image source =>
    refine (floats_below h m i 1).bind fun coord => ?_
    dsimp only
    split
    · refine (Below.refl _).bind fun mask => ?_
      split
      · exact (floats_below h m i 3).bind fun _ => Below.refl _
      · split
        · exact (floats_below h m i 3).bind fun _ => (floats_below h m i 4).bind fun _ =>
            Below.refl _
        · exact Below.refl _
    · exact Below.refl _

/-- The contents that the pointer of a load has before any write do not depend on the table. -/
def LoadsAlike (b b' : Builder) (i : Inst) : Prop :=
  i.opcode = .load → ∀ p, i.operandRef? 0 = some p → b.initialValue p = b'.initialValue p

theorem step_below (texels : Texels) (hi : LoadsAlike b b' i) :
    Below (m.step b texels i) (m.step b' texels i) := by
  unfold step
  split
  all_goals try exact Below.refl _
  · rename_i hop
    cases hp : i.operandRef? 0 with
    | none => exact Below.refl _
    | some p =>
      have hr : m.read b p = m.read b' p := by
        unfold read
        rw [hi hop p hp]
      show Below (Except.ok (m.define i (m.read b p))) (Except.ok (m.define i (m.read b' p)))
      rw [hr]
      exact Below.refl _
  · exact (Below.refl _).bind fun _ => (operand_below h m i 1).bind fun _ => Below.refl _
  · exact (sampleCall_below h m i).bind fun _ => Below.refl _
  · exact (sampleCall_below h m i).bind fun _ => Below.refl _
  · exact (sampleCall_below h m i).bind fun _ => Below.refl _
  · exact (eval_below h m i).bind fun _ => Below.refl _

/-! ## Code -/

variable {m i} in
omit h in
theorem steps_cons {texels : Texels} {code : List Inst} {m₁ : Machine}
    (hs : m.step b texels i = .ok m₁) :
    m.steps b texels (i :: code) = m₁.steps b texels code := by
  rw [steps, hs]

variable {m i} in
omit h in
/-- The first instruction of code that a run gets through. -/
theorem exists_of_steps_cons {texels : Texels} {code : List Inst} {m' : Machine}
    (hr : m.steps b texels (i :: code) = (m', none)) :
    ∃ m₁, m.step b texels i = .ok m₁ ∧ m₁.steps b texels code = (m', none) := by
  rw [steps] at hr
  cases hs : m.step b texels i with
  | error stop =>
    rw [hs] at hr
    cases hr
  | ok m₁ =>
    rw [hs] at hr
    exact ⟨m₁, rfl, hr⟩

/-- A run that succeeds under one table succeeds under every larger one. -/
theorem steps_mono (texels : Texels) (code : List Inst) (m' : Machine)
    (hi : ∀ i ∈ code, LoadsAlike b b' i) (hr : m.steps b texels code = (m', none)) :
    m.steps b' texels code = (m', none) := by
  induction code generalizing m with
  | nil => exact hr
  | cons i rest ih =>
    obtain ⟨m₁, hs, hr⟩ := exists_of_steps_cons hr
    rw [steps_cons (step_below h m i texels (hi i (List.mem_cons_self ..)) m₁ hs)]
    exact ih m₁ (fun j hj => hi j (List.mem_cons_of_mem i hj)) hr

omit h in
theorem steps_append (texels : Texels) (code rest : List Inst) {m' : Machine}
    (hr : m.steps b texels code = (m', none)) :
    m.steps b texels (code ++ rest) = m'.steps b texels rest := by
  induction code generalizing m with
  | nil =>
    obtain ⟨rfl, -⟩ := Prod.mk.inj hr
    rfl
  | cons i code ih =>
    obtain ⟨m₁, hs, hr⟩ := exists_of_steps_cons hr
    rw [List.cons_append, steps_cons hs]
    exact ih m₁ hr

end Machine

end TextureLift
