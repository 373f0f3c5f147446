import TextureLift.Proofs.Machine.Step

/-!
# What values depend on

Code computes values from the contents of variables and from texels. Given a set `V` of variables, an
id is without `V` if nothing that was loaded from `V` enters its value, and within `V` if nothing else
does (`Side.Clear`). Texels do not carry dependence: what is sampled is without `V` whatever the
request was.

A body is separated by `V` if each instruction that computes has operands of one side, what is stored
is without `V` and not stored in `V`, and requests depend on `V` at most in the last operand, at
certain positions. What is loaded from `V` itself is looked at in its first four lanes only, one at a
time, so it does not matter what it is taken for and what follows. Then

    Separated.shadowed   runs that agree on `V` in four lanes have the same values within `V`
    Separated.lockstep   runs that agree off `V` stop at the same instruction for the same reason, with
                         the same memory off `V` and the same requests, up to such operands

Nothing is assumed of the memory off `V`: runs may well stop early.
-/

namespace TextureLift

/-! ## Dependence -/

/-- The instruction loads a variable of a set. -/
def Inst.LoadsFrom (V : Ref → Prop) (i : Inst) : Prop :=
  i.opcode = .load ∧ ∃ pointer, i.operandRef? 0 = some pointer ∧ V pointer

/-- Where the value of an id may come from: a set of variables alone, or anywhere else. -/
inductive Side where
  | within
  | without
  deriving DecidableEq, Repr

/-- The instructions that bring in what a side excludes. -/
def Side.Breach (V : Ref → Prop) : Side → Inst → Prop
  | without, i => i.LoadsFrom V
  | within, i => i.LoadsFrom (fun pointer => ¬ V pointer) ∨ i.opcode.isImageSample = true

/-- The results of some instructions of the code, and all that is computed from them. -/
def reached (src : Inst → Prop) (code : List Inst) : Ref → Prop :=
  code.foldl (fun known i id => known id ∨ i.result = some id ∧
    (src i ∨ i.opcode.isPure = true ∧ ∃ w ∈ i.idWords, known ⟨w⟩)) fun _ => False

section Reached

variable {src src' : Inst → Prop} {code : List Inst} {i : Inst} {id : Ref}

theorem reached_concat : reached src (code ++ [i]) id ↔ reached src code id ∨ i.result = some id ∧
    (src i ∨ i.opcode.isPure = true ∧ ∃ w ∈ i.idWords, reached src code ⟨w⟩) := by
  unfold reached
  rw [List.foldl_append]
  rfl

theorem reached_append (code' : List Inst) (h : reached src code id) :
    reached src (code ++ code') id := by
  induction code' generalizing code with
  | nil =>
    rw [List.append_nil]
    exact h
  | cons j code' ih =>
    rw [List.append_cons]
    exact ih (reached_concat.2 (.inl h))

/-- Instructions without results reach nothing. -/
theorem reached_of_append {code' : List Inst} (hcode' : ∀ i ∈ code', i.result = none)
    (h : reached src (code ++ code') id) : reached src code id := by
  induction code' generalizing code with
  | nil =>
    rw [List.append_nil] at h
    exact h
  | cons j code' ih =>
    rw [List.append_cons] at h
    rcases reached_concat.1 (ih (fun i hi => hcode' i (List.mem_cons_of_mem j hi)) h) with h | ⟨hr, -⟩
    · exact h
    · rw [hcode' j (List.mem_cons_self ..)] at hr
      cases hr

/-- What an instruction brings in is reached. -/
theorem reached_of_mem (hi : i ∈ code) (hsrc : src i) (hr : i.result = some id) :
    reached src code id := by
  obtain ⟨before, after, rfl⟩ := List.append_of_mem hi
  rw [List.append_cons]
  exact reached_append after (reached_concat.2 (.inr ⟨hr, .inl hsrc⟩))

/-- What is reached is the result of an instruction that brings it in or computes. -/
theorem exists_of_reached (h : reached src code id) :
    ∃ i ∈ code, i.result = some id ∧ (src i ∨ i.opcode.isPure = true) := by
  induction code using List.reverseRecOn with
  | nil => exact h.elim
  | append_singleton code i ih =>
    rcases reached_concat.1 h with h | ⟨hr, h⟩
    · obtain ⟨j, hj, hrest⟩ := ih h
      exact ⟨j, List.mem_append_left _ hj, hrest⟩
    · exact ⟨i, by simp, hr, h.imp (fun h => h) And.left⟩

theorem reached_congr (h : ∀ i ∈ code, src i ↔ src' i) : reached src code id ↔ reached src' code id := by
  induction code using List.reverseRecOn generalizing id with
  | nil => rfl
  | append_singleton code i ih =>
    have hcode {id : Ref} : reached src code id ↔ reached src' code id :=
      ih fun j hj => h j (List.mem_append_left _ hj)
    rw [reached_concat, reached_concat, hcode, h i (by simp)]
    simp only [hcode]

end Reached

/-- The value of the id comes from the given side. -/
def Side.Clear (V : Ref → Prop) (side : Side) (code : List Inst) (id : Ref) : Prop :=
  ¬ reached (side.Breach V) code id

/-- The variables that a side allows to load. -/
def Side.Owns (V : Ref → Prop) : Side → Ref → Prop
  | within, pointer => V pointer
  | without, pointer => ¬ V pointer

theorem Side.not_breach_of_load {V : Ref → Prop} {side : Side} {i : Inst} {pointer : Ref}
    (hop : i.opcode = .load) (hp : i.operandRef? 0 = some pointer) (h : side.Owns V pointer) :
    ¬ side.Breach V i := by
  have heq {p : Ref} (hp' : i.operandRef? 0 = some p) : p = pointer :=
    Option.some.inj (hp'.symm.trans hp)
  cases side with
  | without =>
    rintro ⟨-, p, hp', hV⟩
    exact h (heq hp' ▸ hV)
  | within =>
    rintro (⟨-, p, hp', hV⟩ | hsample)
    · exact hV (heq hp' ▸ h)
    · rw [hop] at hsample
      cases hsample

/-- Only loads and samples bring anything in. -/
theorem Side.Breach.yields {V : Ref → Prop} {side : Side} {i : Inst} (h : side.Breach V i) :
    i.opcode.yields = true ∧ i.opcode.isPure = false := by
  have hkind : i.opcode = .load ∨ i.opcode.isImageSample = true := by
    cases side with
    | without => exact .inl h.1
    | within => exact h.imp_left And.left
  generalize i.opcode = op at hkind
  rcases hkind with rfl | hsample
  · exact ⟨rfl, rfl⟩
  · cases op <;> first | exact ⟨rfl, rfl⟩ | cases hsample

theorem Side.Clear.of_isPrefix {V : Ref → Prop} {side : Side} {before code : List Inst} {id : Ref}
    (h : side.Clear V code id) (hb : before <+: code) : side.Clear V before id := by
  obtain ⟨after, rfl⟩ := hb
  exact fun hr => h (reached_append after hr)

/-- The id is what some code loaded from a variable of the set. -/
def LoadedFrom (V : Ref → Prop) (code : List Inst) (id : Ref) : Prop :=
  ∃ i ∈ code, i.LoadsFrom V ∧ i.result = some id

theorem LoadedFrom.mono {V : Ref → Prop} {code code' : List Inst} {id : Ref}
    (h : LoadedFrom V code id) (hcode : code ⊆ code') : LoadedFrom V code' id := by
  obtain ⟨i, hi, hloads⟩ := h
  exact ⟨i, hcode hi, hloads⟩

/-- The value of the id comes from the given side and is not as it was loaded from the set. -/
structure Side.Settled (V : Ref → Prop) (side : Side) (code : List Inst) (id : Ref) : Prop where
  clear : side.Clear V code id
  derived : ¬ LoadedFrom V code id

theorem Side.Settled.of_isPrefix {V : Ref → Prop} {side : Side} {before code : List Inst} {id : Ref}
    (h : side.Settled V code id) (hb : before <+: code) : side.Settled V before id :=
  ⟨h.clear.of_isPrefix hb, fun hloaded => h.derived (hloaded.mono hb.subset)⟩

/-- The instruction takes one of the first four lanes of a value from within the set. -/
def Inst.Picks (within : Ref → Prop) (i : Inst) : Prop :=
  i.opcode = .compositeExtract ∧
    ∃ w lane, i.operands = [w, lane] ∧ lane.toNat < 4 ∧ within ⟨w⟩

theorem Inst.Picks.imp {within within' : Ref → Prop} {i : Inst} (h : i.Picks within)
    (himp : ∀ id, within id → within' id) : i.Picks within' := by
  obtain ⟨hop, w, lane, hops, hlane, hw⟩ := h
  exact ⟨hop, w, lane, hops, hlane, himp _ hw⟩

/-! ## Separated code -/

/-- The instructions of bodies. -/
theorem Opcode.cases_of_body {op : Opcode} (h : op.isFrame = true ∨ op.isCode = true) :
    op.isFrame = true ∨ op = .load ∨ op = .store ∨ op.isImageSample = true ∨ op.isPure = true := by
  revert h
  cases op <;> decide

/-- The samples of some code, in their order. -/
def samplesOf (code : List Inst) : List Inst :=
  code.filter (·.opcode.isImageSample)

theorem samplesOf_append (code code' : List Inst) :
    samplesOf (code ++ code') = samplesOf code ++ samplesOf code' :=
  List.filter_append ..

/-- The operands of a sample are clear on the outside, but for the second gradient if it is `free`,
which is then clear on the inside. -/
structure Inst.Sampled (clear : Side → Ref → Prop) (free : Prop) (i : Inst) : Prop where
  plain : ∀ n ∈ [0, 1, 3], ∀ w, i.operands[n]? = some w → clear .without ⟨w⟩
  bound : ¬ free → ∀ w, i.operands[4]? = some w → clear .without ⟨w⟩
  free : free → i.opcode = .imageSampleExplicitLod ∧ i.operands[2]? = some Machine.gradBit ∧
    ∀ w, i.operands[4]? = some w → clear .within ⟨w⟩

theorem Inst.Sampled.imp {clear clear' : Side → Ref → Prop} {free : Prop} {i : Inst}
    (h : i.Sampled clear free) (himp : ∀ side id, clear side id → clear' side id) :
    i.Sampled clear' free where
  plain n hn w hw := himp _ _ (h.plain n hn w hw)
  bound hf w hw := himp _ _ (h.bound hf w hw)
  free hf := ⟨(h.free hf).1, (h.free hf).2.1, fun w hw => himp _ _ ((h.free hf).2.2 w hw)⟩

/-- The variables have no part in what the code does, but for second gradients of the requests at
some positions. -/
structure Separated (V : Ref → Prop) (free : Nat → Prop) (code : List Inst) : Prop where
  kinds : ∀ i ∈ code, i.opcode.isFrame = true ∨ i.opcode.isCode = true
  computations : ∀ i ∈ code, i.opcode.isPure = true → i.Picks (Side.within.Clear V code) ∨
    ∃ side : Side, ∀ w ∈ i.idWords, side.Settled V code ⟨w⟩
  stores : ∀ i ∈ code, i.opcode = .store → (∀ pointer, i.operandRef? 0 = some pointer → ¬ V pointer) ∧
    ∀ w, i.operands[1]? = some w → Side.without.Clear V code ⟨w⟩
  samples : ∀ (n : Nat) (i : Inst), (samplesOf code)[n]? = some i →
    i.Sampled (fun side => side.Settled V code) (free n)

namespace Machine

variable {b : Builder} {texels texels' : Texels} {m m' m₁ m₁' : Machine} {i : Inst} {V : Ref → Prop}
  {side : Side} {code : List Inst}

/-- Values that agree still do after a step of each machine, if the step gives them anew from what
agrees. -/
theorem AgreeAt.step {α : Type} {f : Value → α} {id : Ref}
    (hkind : i.opcode.isFrame = true ∨ i.opcode.isCode = true) (hold : AgreeAt f m m' id)
    (hload : i.opcode = .load → i.result = some id → ∀ pointer, i.operandRef? 0 = some pointer →
      f (m.read b pointer) = f (m'.read b pointer))
    (htexel : i.opcode.isImageSample = true → i.result = some id → ∀ call call',
      texels m.samples.size call = texels' m'.samples.size call')
    (hpure : i.opcode.isPure = true → i.result = some id → m.eval b i = m'.eval b i)
    (h : m.step b texels i = .ok m₁) (h' : m'.step b texels' i = .ok m₁') : AgreeAt f m₁ m₁' id := by
  rcases Opcode.cases_of_body hkind with hop | hop | hop | hop | hop
  · rw [step_of_isFrame hop] at h h'
    obtain rfl := Except.ok.inj h
    obtain rfl := Except.ok.inj h'
    exact hold
  · rw [step_of_load hop] at h h'
    obtain ⟨pointer, hp, rfl⟩ := exists_of_map h
    obtain ⟨pointer', hp', rfl⟩ := exists_of_map h'
    obtain rfl := Except.ok.inj (hp.symm.trans hp')
    exact hold.define fun hr => hload hop hr pointer (expect_eq_ok hp)
  · rw [step_of_store hop] at h h'
    obtain ⟨pointer, -, h⟩ := exists_of_bind h
    obtain ⟨pointer', -, h'⟩ := exists_of_bind h'
    obtain ⟨v, -, rfl⟩ := exists_of_map h
    obtain ⟨v', -, rfl⟩ := exists_of_map h'
    exact hold
  · rw [step_of_isImageSample hop] at h h'
    obtain ⟨call, -, rfl⟩ := exists_of_map h
    obtain ⟨call', -, rfl⟩ := exists_of_map h'
    have hpush : AgreeAt f { m with samples := m.samples.push call }
        { m' with samples := m'.samples.push call' } id := hold
    exact hpush.define fun hr => by rw [htexel hop hr call call']
  · rw [step_of_isPure hop] at h h'
    obtain ⟨v, hv, rfl⟩ := exists_of_map h
    obtain ⟨v', hv', rfl⟩ := exists_of_map h'
    refine hold.define fun hr => ?_
    rw [hpure hop hr, hv'] at hv
    rw [Except.ok.inj hv]

/-- What a result is computed from is on its side. -/
theorem clear_idWords {id : Ref} (hid : side.Clear V (code ++ [i]) id) (hr : i.result = some id)
    (hop : i.opcode.isPure = true) : ∀ w ∈ i.idWords, side.Clear V code ⟨w⟩ :=
  fun w hw hreached => hid (reached_concat.2 (.inr ⟨hr, .inr ⟨hop, w, hw, hreached⟩⟩))

theorem not_breach_of_clear {id : Ref} (hid : side.Clear V (code ++ [i]) id)
    (hr : i.result = some id) : ¬ side.Breach V i :=
  fun hb => hid (reached_concat.2 (.inr ⟨hr, .inl hb⟩))

end Machine

/-- The sample after some code is at the position of the number of samples in it. -/
theorem samplesOf_at {before code : List Inst} {i : Inst} (hb : before ++ [i] <+: code)
    (hop : i.opcode.isImageSample = true) :
    (samplesOf code)[(samplesOf before).length]? = some i := by
  obtain ⟨after, rfl⟩ := hb
  have hi : samplesOf [i] = [i] := List.filter_cons_of_pos hop
  rw [samplesOf_append, samplesOf_append, hi, List.append_assoc,
    List.getElem?_append_right (Nat.le_refl _), Nat.sub_self]
  rfl

/-- The number of requests after one more instruction. -/
theorem size_samples_step {b : Builder} {texels : Texels} {m m₁ : Machine} {i : Inst}
    {before : List Inst} (hsize : m.samples.size = (samplesOf before).length)
    (h : m.step b texels i = .ok m₁) : m₁.samples.size = (samplesOf (before ++ [i])).length := by
  rw [samplesOf_append, List.length_append]
  rcases Machine.samples_step h with ⟨hop, hsamples⟩ | ⟨hop, call, -, hsamples⟩
  · have hi : samplesOf [i] = [] := List.filter_cons_of_neg (by rw [hop]; decide)
    rw [hsamples, hi, hsize]
    rfl
  · have hi : samplesOf [i] = [i] := List.filter_cons_of_pos hop
    rw [hsamples, hi, Array.size_push, hsize]
    rfl

/-- Requests stay. -/
theorem Machine.samples_persist {b : Builder} {texels : Texels} {m m₁ : Machine} {i : Inst} {n : Nat}
    {call : SampleCall} (h : m.step b texels i = .ok m₁) (hcall : m.samples[n]? = some call) :
    m₁.samples[n]? = some call := by
  rcases samples_step h with ⟨-, hsamples⟩ | ⟨-, new, -, hsamples⟩
  · rw [hsamples, hcall]
  · have hlt := (Array.getElem?_eq_some_iff.1 hcall).1
    rw [hsamples, Array.getElem?_push, if_neg (by omega), hcall]

namespace Separated

open Machine

variable {V : Ref → Prop} {free : Nat → Prop} {code before : List Inst} {b : Builder}
  {texels texels' : Texels} {start shadow m m' m₁ mₛ : Machine} {i : Inst}

/-- What depends on the variables alone is the same in both machines, and what was loaded from them has
the same first four lanes. -/
def Follows (V : Ref → Prop) (before : List Inst) (m mₛ : Machine) : Prop :=
  ∀ id, Side.within.Clear V before id → AgreeAt Value.front m mₛ id ∧
    (¬ LoadedFrom V before id → m.SameAt mₛ id)

/-- What a run has in common with one that agrees with it on the variables in four lanes and does not
stop. -/
structure Shadows (V : Ref → Prop) (free : Nat → Prop) (before : List Inst) (m : Machine)
    (stop : Option Stop) (mₛ : Machine) : Prop where
  gradients : ∀ (n : Nat) call, free n → m.samples[n]? = some call →
    ∃ callₛ, mₛ.samples[n]? = some callₛ ∧ call.dy? = callₛ.dy?
  size : stop = none → m.samples.size = (samplesOf before).length
  sizeₛ : mₛ.samples.size = (samplesOf before).length
  follows : stop = none → Follows V before m mₛ

theorem mem_of_isPrefix (hb : before ++ [i] <+: code) : i ∈ code := by
  obtain ⟨after, rfl⟩ := hb
  simp

/-- The second gradient of a request at a free position depends on the variables alone. -/
theorem gradientCall_of_free (hs : Separated V free code) (hb : before ++ [i] <+: code)
    (hop : i.opcode.isImageSample = true) (hfree : free (samplesOf before).length) :
    (∀ m : Machine, m.sampleCall b i = m.gradientCall b i) ∧
    ∀ m mₛ : Machine, Follows V before m mₛ → m.floats b i 4 = mₛ.floats b i 4 := by
  obtain ⟨hexplicit, hmask, hlast⟩ := (hs.samples _ i (samplesOf_at hb hop)).free hfree
  refine ⟨fun m => sampleCall_eq_gradientCall hexplicit hmask, fun m mₛ hfollows =>
    floats_congr fun w hw => ?_⟩
  have hw := (hlast w hw).of_isPrefix ((List.prefix_append before [i]).trans hb)
  exact (hfollows _ hw.clear).2 hw.derived

/-- Computations from the variables alone give the same. -/
theorem Follows.eval_eq (hs : Separated V free code) (hb : before ++ [i] <+: code)
    (hop : i.opcode.isPure = true) (h : Follows V before m mₛ)
    (hclear : ∀ w ∈ i.idWords, Side.within.Clear V before ⟨w⟩) : m.eval b i = mₛ.eval b i := by
  have hb' : before <+: code := (List.prefix_append before [i]).trans hb
  rcases hs.computations i (mem_of_isPrefix hb) hop with
    ⟨hextract, w, lane, hops, hlane, hw⟩ | ⟨side, hside⟩
  · exact eval_of_front hextract hops hlane (h _ (hw.of_isPrefix hb')).1
  · exact eval_congr fun w hw => (h _ (hclear w hw)).2 ((hside w hw).of_isPrefix hb').derived

/-- One more instruction of both machines. -/
theorem Follows.step (hs : Separated V free code) (hb : before ++ [i] <+: code)
    (h : Follows V before m mₛ)
    (hV : ∀ id, V id → (m.contents? id).map Value.front = (mₛ.contents? id).map Value.front)
    (hstep : m.step b texels i = .ok m') (hstepₛ : mₛ.step b texels' i = .ok m₁) :
    Follows V (before ++ [i]) m' m₁ := by
  intro id hid
  obtain ⟨hfront, hsame⟩ := h id (hid.of_isPrefix (List.prefix_append before [i]))
  have hkind := hs.kinds i (mem_of_isPrefix hb)
  -- only the variables are loaded
  have hpointer {pointer : Ref} (hop : i.opcode = .load) (hr : i.result = some id)
      (hp : i.operandRef? 0 = some pointer) : V pointer := by
    by_contra hVp
    exact not_breach_of_clear hid hr (.inl ⟨hop, pointer, hp, hVp⟩)
  have htexel (hop : i.opcode.isImageSample = true) (hr : i.result = some id) (call call' : SampleCall) :
      texels m.samples.size call = texels' mₛ.samples.size call' :=
    absurd (.inr hop) (not_breach_of_clear hid hr)
  have hpure (hop : i.opcode.isPure = true) (hr : i.result = some id) : m.eval b i = mₛ.eval b i :=
    h.eval_eq hs hb hop (clear_idWords hid hr hop)
  refine ⟨hfront.step hkind (fun hop hr pointer hp => ?_) htexel hpure hstep hstepₛ, fun hloaded => ?_⟩
  · unfold Machine.read
    rw [← Option.getD_map Value.front, ← Option.getD_map Value.front, hV pointer (hpointer hop hr hp)]
  · refine sameAt_iff_agreeAt.2 ((sameAt_iff_agreeAt.1 (hsame fun hold => hloaded ?_)).step hkind
      (fun hop hr pointer hp => ?_) htexel hpure hstep hstepₛ)
    · exact hold.mono (List.subset_append_left before [i])
    · exact absurd ⟨i, by simp, ⟨hop, pointer, hp, hpointer hop hr hp⟩, hr⟩ hloaded

/-- A run that has stopped has its shadow go on alone. -/
theorem Shadows.stopped {stop : Option Stop} {s : Stop} (h : Shadows V free before m stop mₛ)
    (hstep : mₛ.step b texels' i = .ok m₁) : Shadows V free (before ++ [i]) m (some s) m₁ := by
  refine ⟨fun n call hn hcall => ?_, nofun, size_samples_step h.sizeₛ hstep, nofun⟩
  obtain ⟨callₛ, hcallₛ, hdy⟩ := h.gradients n call hn hcall
  exact ⟨callₛ, samples_persist hstep hcallₛ, hdy⟩

/-- One more instruction of both runs. -/
theorem Shadows.step (hs : Separated V free code) (hb : before ++ [i] <+: code)
    (h : Shadows V free before m none mₛ)
    (hV : ∀ id, V id → (m.contents? id).map Value.front = (mₛ.contents? id).map Value.front)
    (hstep : m.step b texels i = .ok m') (hstepₛ : mₛ.step b texels' i = .ok m₁) :
    Shadows V free (before ++ [i]) m' none m₁ := by
  refine ⟨fun n call hn hcall => ?_, fun _ => size_samples_step (h.size rfl) hstep,
    size_samples_step h.sizeₛ hstepₛ, fun _ => (h.follows rfl).step hs hb hV hstep hstepₛ⟩
  have hold (hcall : m.samples[n]? = some call) :
      ∃ callₛ, m₁.samples[n]? = some callₛ ∧ call.dy? = callₛ.dy? := by
    obtain ⟨callₛ, hcallₛ, hdy⟩ := h.gradients n call hn hcall
    exact ⟨callₛ, samples_persist hstepₛ hcallₛ, hdy⟩
  rcases samples_step hstep with ⟨-, hsamples⟩ | ⟨hop, new, hnew, hsamples⟩
  · exact hold (hsamples ▸ hcall)
  rw [hsamples, Array.getElem?_push] at hcall
  split at hcall
  · -- the request is the one of this instruction
    rename_i hlast
    obtain rfl := Option.some.inj hcall
    rcases samples_step hstepₛ with ⟨hop', -⟩ | ⟨-, newₛ, hnewₛ, hsamplesₛ⟩
    · rw [hop] at hop'
      cases hop'
    refine ⟨newₛ, ?_, ?_⟩
    · rw [hsamplesₛ, hlast, h.size rfl, ← h.sizeₛ]
      simp
    · rw [hlast, h.size rfl] at hn
      obtain ⟨hcalls, hfloats⟩ := hs.gradientCall_of_free (b := b) hb hop hn
      obtain ⟨dy, hdy, hnewdy⟩ := dy_of_gradientCall ((hcalls m).symm.trans hnew)
      obtain ⟨dyₛ, hdyₛ, hnewdyₛ⟩ := dy_of_gradientCall ((hcalls mₛ).symm.trans hnewₛ)
      rw [hfloats m mₛ (h.follows rfl), hdyₛ] at hdy
      rw [hnewdy, hnewdyₛ, Except.ok.inj hdy]
  · exact hold hcall

/-- Runs that agree on the variables in four lanes have the same values within them, as far as the
first of them goes. -/
theorem shadowed (hs : Separated V free code) (hvalues : start.values = shadow.values)
    (hV : ∀ id, V id → (start.contents? id).map Value.front = (shadow.contents? id).map Value.front)
    (hnew : start.samples = #[]) (hnewₛ : shadow.samples = #[]) {last : Machine} (hdone : shadow.steps b texels' code = (last, none))
    (hb : before <+: code) : ∃ m stop mₛ, start.steps b texels before = (m, stop) ∧
      shadow.steps b texels' before = (mₛ, none) ∧ Shadows V free before m stop mₛ := by
  induction before using List.reverseRecOn with
  | nil =>
    refine ⟨start, none, shadow, rfl, rfl, ?_, fun _ => by rw [hnew]; rfl, by rw [hnewₛ]; rfl, ?_⟩
    · intro n call _ hcall
      rw [hnew] at hcall
      simp at hcall
    · intro _ id _
      have hsame : start.SameAt shadow id := congrArg (·[id.word]?) hvalues
      exact ⟨hsame.agreeAt _, fun _ => hsame⟩
  | append_singleton before i ih =>
    have hb' : before <+: code := (List.prefix_append before [i]).trans hb
    obtain ⟨m, stop, mₛ, hm, hmₛ, hshadows⟩ := ih hb'
    obtain ⟨after, hcode⟩ := hb
    obtain ⟨m₁, hm₁⟩ := exists_of_steps_append (hcode ▸ hdone)
    obtain ⟨mₛ', hmₛ', hstepₛ⟩ := exists_of_steps_concat hm₁
    obtain rfl : mₛ = mₛ' := (Prod.mk.inj (hmₛ.symm.trans hmₛ')).1
    have hstores (id : Ref) (hid : V id) (j : Inst) (hj : j ∈ before) (hop : j.opcode = .store) :
        j.operandRef? 0 ≠ some id := fun hp =>
      (hs.stores j (hb'.subset hj) hop).1 id hp hid
    have hV' (id : Ref) (hid : V id) :
        (m.contents? id).map Value.front = (mₛ.contents? id).map Value.front := by
      have h1 : (start.steps b texels before).1.contents? id = start.contents? id :=
        contents?_steps (hstores id hid)
      have h2 : (shadow.steps b texels' before).1.contents? id = shadow.contents? id :=
        contents?_steps (hstores id hid)
      rw [hm] at h1
      rw [hmₛ] at h2
      rw [h1, h2, hV id hid]
    rw [steps_concat, hm]
    cases stop with
    | some s => exact ⟨m, some s, m₁, rfl, hm₁, hshadows.stopped hstepₛ⟩
    | none =>
      cases hstep : m.step b texels i with
      | error s => exact ⟨m, some s, m₁, by simp only [hstep], hm₁, hshadows.stopped hstepₛ⟩
      | ok m' =>
        exact ⟨m', none, m₁, by simp only [hstep], hm₁,
          hshadows.step hs ⟨after, hcode⟩ hV' hstep hstepₛ⟩

/-- What two runs that differ in the variables alone have in common. -/
structure Matched (V : Ref → Prop) (free : Nat → Prop) (m m' : Machine) : Prop where
  contents : ∀ id, ¬ V id → m.contents? id = m'.contents? id
  size : m.samples.size = m'.samples.size
  requests : ∀ (n : Nat) call call', m.samples[n]? = some call → m'.samples[n]? = some call' →
    call.Alike (free n) call'

theorem Matched.define (h : Matched V free m m') (i : Inst) (v v' : Value) :
    Matched V free (m.define i v) (m'.define i v') := by
  refine ⟨fun id hid => ?_, ?_, ?_⟩
  · unfold contents?
    rw [Machine.memory_define, Machine.memory_define]
    exact h.contents id hid
  · rw [samples_define, samples_define]
    exact h.size
  · rw [samples_define, samples_define]
    exact h.requests

theorem Matched.write (h : Matched V free m m') (pointer : Ref) (v : Value) :
    Matched V free (m.write pointer v) (m'.write pointer v) := by
  refine ⟨fun id hid => ?_, h.size, h.requests⟩
  show (m.write pointer v).memory[id.word]? = (m'.write pointer v).memory[id.word]?
  rw [Machine.memory_write, Machine.memory_write]
  split
  · rfl
  · exact h.contents id hid

theorem Matched.answer (h : Matched V free m m') (i : Inst) {call call' : SampleCall}
    (hcall : call.Alike (free m.samples.size) call') :
    Matched V free (m.answer texels i call) (m'.answer texels' i call') := by
  have hpush : Matched V free { m with samples := m.samples.push call }
      { m' with samples := m'.samples.push call' } := by
    refine ⟨h.contents, ?_, fun n c c' hc hc' => ?_⟩
    · rw [Array.size_push, Array.size_push, h.size]
    · rw [Array.getElem?_push] at hc hc'
      rw [← h.size] at hc'
      split at hc
      · rename_i hn
        rw [if_pos hn] at hc'
        obtain rfl := Option.some.inj hc
        obtain rfl := Option.some.inj hc'
        rw [hn]
        exact hcall
      · rename_i hn
        rw [if_neg hn] at hc'
        exact h.requests n c c' hc hc'
  exact hpush.define i _ _

/-- The values within the variables are those of a machine that can execute the next instruction. -/
def Supported (V : Ref → Prop) (b : Builder) (before : List Inst) (i : Inst) (m : Machine) : Prop :=
  ∃ texels' mₛ m₁, Machine.step b texels' mₛ i = .ok m₁ ∧ Follows V before m mₛ

theorem supported (hs : Separated V free code) (hvalues : start.values = shadow.values)
    (hV : ∀ id, V id → (start.contents? id).map Value.front = (shadow.contents? id).map Value.front)
    (hnew : start.samples = #[]) (hnewₛ : shadow.samples = #[]) {last : Machine} (hdone : shadow.steps b texels' code = (last, none))
    (hb : before ++ [i] <+: code) (hm : start.steps b texels before = (m, none)) :
    Supported V b before i m := by
  obtain ⟨after, hcode⟩ := hb
  obtain ⟨m₁, hm₁⟩ := exists_of_steps_append (hcode ▸ hdone)
  obtain ⟨mₛ, hmₛ, hstep⟩ := exists_of_steps_concat hm₁
  have hb : before <+: code := ⟨[i] ++ after, by rw [← List.append_assoc, hcode]⟩
  obtain ⟨m', stop, mₛ', hm', hmₛ', hshadows⟩ := hs.shadowed hvalues hV hnew hnewₛ hdone hb
  obtain ⟨rfl, rfl⟩ := Prod.mk.inj (hm.symm.trans hm')
  obtain ⟨rfl, -⟩ := Prod.mk.inj (hmₛ.symm.trans hmₛ')
  exact ⟨texels', mₛ, m₁, hstep, hshadows.follows rfl⟩

/-- Either machine refuses to sample if the other does, and their requests differ at most in a second
gradient that is free. -/
theorem sampleCall_matched (hs : Separated V free code) (hb : before ++ [i] <+: code)
    (hop : i.opcode.isImageSample = true)
    (hsame : ∀ id, Side.without.Clear V before id → m.SameAt m' id)
    (hm : Supported V b before i m) (hm' : Supported V b before i m') :
    (∃ stop, m.sampleCall b i = .error stop ∧ m'.sampleCall b i = .error stop) ∨
    ∃ call call', m.sampleCall b i = .ok call ∧ m'.sampleCall b i = .ok call' ∧
      call.Alike (free (samplesOf before).length) call' := by
  have hb' : before <+: code := (List.prefix_append before [i]).trans hb
  have hsampled := hs.samples _ i (samplesOf_at hb hop)
  have hplain {n : Nat} (hn : n ∈ [0, 1, 3]) (w : UInt32) (hw : i.operands[n]? = some w) :
      m.SameAt m' ⟨w⟩ :=
    hsame _ ((hsampled.plain n hn w hw).of_isPrefix hb').clear
  have h0 : m.operand b i 0 = m'.operand b i 0 := operand_congr (hplain (by decide))
  have h1 : m.floats b i 1 = m'.floats b i 1 := floats_congr (hplain (by decide))
  have h3 : m.floats b i 3 = m'.floats b i 3 := floats_congr (hplain (by decide))
  by_cases hfree : free (samplesOf before).length
  · -- both second gradients are numbers, since they are in the runs alongside
    obtain ⟨hcalls, hfloats⟩ := hs.gradientCall_of_free (b := b) hb hop hfree
    have hdy {m : Machine} (hm : Supported V b before i m) : ∃ dy, m.floats b i 4 = .ok dy := by
      obtain ⟨_, mₛ, _, hstepₛ, hfollows⟩ := hm
      rw [step_of_isImageSample hop] at hstepₛ
      obtain ⟨callₛ, hcallₛ, -⟩ := exists_of_map hstepₛ
      obtain ⟨dy, hdy, -⟩ := dy_of_gradientCall ((hcalls mₛ).symm.trans hcallₛ)
      exact ⟨dy, (hfloats m mₛ hfollows).trans hdy⟩
    obtain ⟨dy, hdy₁⟩ := hdy hm
    obtain ⟨dy', hdy₂⟩ := hdy hm'
    rw [hcalls m, hcalls m']
    exact gradientCall_alike h0 h1 h3 hdy₁ hdy₂ hfree
  · have h4 : m.floats b i 4 = m'.floats b i 4 :=
      floats_congr fun w hw => hsame _ ((hsampled.bound hfree w hw).of_isPrefix hb').clear
    rw [sampleCall_congr h0 h1 h3 h4]
    cases m'.sampleCall b i with
    | error stop => exact .inl ⟨stop, rfl, rfl⟩
    | ok call => exact .inr ⟨call, call, rfl, rfl, .refl _ call⟩

/-- Either machine refuses to compute if the other does. -/
theorem eval_matched (hs : Separated V free code) (hb : before ++ [i] <+: code)
    (hop : i.opcode.isPure = true) (hsame : ∀ id, Side.without.Clear V before id → m.SameAt m' id)
    (hm : Supported V b before i m) (hm' : Supported V b before i m') :
    (∃ stop, m.eval b i = .error stop ∧ m'.eval b i = .error stop) ∨
    ∃ v v', m.eval b i = .ok v ∧ m'.eval b i = .ok v' := by
  have hb' : before <+: code := (List.prefix_append before [i]).trans hb
  -- computations from the variables alone give values, since they do in the runs alongside
  have hwithin (hclear : ∀ w ∈ i.idWords, Side.within.Clear V before ⟨w⟩) :
      ∃ v v', m.eval b i = .ok v ∧ m'.eval b i = .ok v' := by
    have hvalue {m : Machine} (hm : Supported V b before i m) : ∃ v, m.eval b i = .ok v := by
      obtain ⟨_, mₛ, _, hstepₛ, hfollows⟩ := hm
      rw [step_of_isPure hop] at hstepₛ
      obtain ⟨v, hv, -⟩ := exists_of_map hstepₛ
      exact ⟨v, (hfollows.eval_eq hs hb hop hclear).trans hv⟩
    obtain ⟨v, hv⟩ := hvalue hm
    obtain ⟨v', hv'⟩ := hvalue hm'
    exact ⟨v, v', hv, hv'⟩
  rcases hs.computations i (mem_of_isPrefix hb) hop with
    ⟨hextract, w, lane, hops, -, hw⟩ | ⟨side, hside⟩
  · refine .inr (hwithin fun w' hw' => ?_)
    have hids : i.idWords = [w] := by
      unfold Inst.idWords
      rw [hextract, hops]
      rfl
    obtain rfl := List.mem_singleton.1 (hids ▸ hw')
    exact hw.of_isPrefix hb'
  · cases side with
    | within => exact .inr (hwithin fun w hw => ((hside w hw).of_isPrefix hb').clear)
    | without =>
      rw [eval_congr fun w hw => hsame _ ((hside w hw).of_isPrefix hb').clear]
      cases m'.eval b i with
      | error stop => exact .inl ⟨stop, rfl, rfl⟩
      | ok v => exact .inr ⟨v, v, rfl, rfl⟩

/-- Either machine refuses an instruction if the other does, and they stay matched if not. -/
theorem step_matched (hs : Separated V free code) (texels texels' : Texels) (hb : before ++ [i] <+: code)
    (h : Matched V free m m') (hsize : m.samples.size = (samplesOf before).length)
    (hsame : ∀ id, Side.without.Clear V before id → m.SameAt m' id)
    (hm : Supported V b before i m) (hm' : Supported V b before i m') :
    (∃ stop, m.step b texels i = .error stop ∧ m'.step b texels' i = .error stop) ∨
    ∃ m₁ m₁', m.step b texels i = .ok m₁ ∧ m'.step b texels' i = .ok m₁' ∧
      Matched V free m₁ m₁' := by
  have hi := mem_of_isPrefix hb
  have hb' : before <+: code := (List.prefix_append before [i]).trans hb
  rcases Opcode.cases_of_body (hs.kinds i hi) with hop | hop | hop | hop | hop
  · exact .inr ⟨m, m', step_of_isFrame hop, step_of_isFrame hop, h⟩
  · rw [step_of_load hop, step_of_load hop]
    cases i.operandRef? 0 with
    | none => exact .inl ⟨_, rfl, rfl⟩
    | some pointer => exact .inr ⟨_, _, rfl, rfl, h.define i _ _⟩
  · rw [step_of_store hop, step_of_store hop,
      operand_congr fun w hw => hsame _ (((hs.stores i hi hop).2 w hw).of_isPrefix hb')]
    cases i.operandRef? 0 with
    | none => exact .inl ⟨_, rfl, rfl⟩
    | some pointer =>
      cases m'.operand b i 1 with
      | error stop => exact .inl ⟨stop, rfl, rfl⟩
      | ok v => exact .inr ⟨_, _, rfl, rfl, h.write pointer v⟩
  · rw [step_of_isImageSample hop, step_of_isImageSample hop]
    rcases hs.sampleCall_matched hb hop hsame hm hm' with
      ⟨stop, hcall, hcall'⟩ | ⟨call, call', hcall, hcall', halike⟩
    · rw [hcall, hcall']
      exact .inl ⟨stop, rfl, rfl⟩
    · rw [hcall, hcall']
      exact .inr ⟨_, _, rfl, rfl, h.answer i (hsize ▸ halike)⟩
  · rw [step_of_isPure hop, step_of_isPure hop]
    rcases hs.eval_matched hb hop hsame hm hm' with ⟨stop, hv, hv'⟩ | ⟨v, v', hv, hv'⟩
    · rw [hv, hv']
      exact .inl ⟨stop, rfl, rfl⟩
    · rw [hv, hv']
      exact .inr ⟨_, _, rfl, rfl, h.define i v v'⟩

/-- Runs that agree off the variables go the same way, if each has a run alongside that agrees with it
on the variables and does not stop. Texels are given by the position of the request. -/
theorem lockstep (hs : Separated V free code) {start' : Machine} {texels : Nat → Texel}
    (hvalues : start.values = start'.values)
    (hcontents : ∀ id, ¬ V id → start.contents? id = start'.contents? id)
    (hnew : start.samples = #[]) (hnew' : start'.samples = #[])
    (hsupport : ∀ before i m, before ++ [i] <+: code →
      start.steps b (fun n _ => texels n) before = (m, none) → Supported V b before i m)
    (hsupport' : ∀ before i m, before ++ [i] <+: code →
      start'.steps b (fun n _ => texels n) before = (m, none) → Supported V b before i m)
    (hb : before <+: code) :
    ∃ m m' stop, start.steps b (fun n _ => texels n) before = (m, stop) ∧
      start'.steps b (fun n _ => texels n) before = (m', stop) ∧ Matched V free m m' ∧
      (stop = none → m.samples.size = (samplesOf before).length ∧
        ∀ id, Side.without.Clear V before id → m.SameAt m' id) := by
  induction before using List.reverseRecOn with
  | nil =>
    refine ⟨start, start', none, rfl, rfl, ⟨hcontents, by rw [hnew, hnew'], ?_⟩, fun _ =>
      ⟨by rw [hnew]; rfl, fun id _ => ?_⟩⟩
    · intro n call call' hcall
      rw [hnew] at hcall
      simp at hcall
    · show start.values[id.word]? = start'.values[id.word]?
      rw [hvalues]
  | append_singleton before i ih =>
    obtain ⟨m, m', stop, hm, hm', hmatched, hgoes⟩ := ih ((List.prefix_append before [i]).trans hb)
    rw [steps_concat, steps_concat, hm, hm']
    cases stop with
    | some s => exact ⟨m, m', some s, rfl, rfl, hmatched, nofun⟩
    | none =>
      obtain ⟨hsize, hsame⟩ := hgoes rfl
      rcases hs.step_matched (fun n _ => texels n) (fun n _ => texels n) hb hmatched hsize hsame
        (hsupport before i m hb hm) (hsupport' before i m' hb hm') with
        ⟨s, hstep, hstep'⟩ | ⟨m₁, m₁', hstep, hstep', hmatched₁⟩
      · exact ⟨m, m', some s, by simp only [hstep], by simp only [hstep'], hmatched, nofun⟩
      · refine ⟨m₁, m₁', none, by simp only [hstep], by simp only [hstep'], hmatched₁, fun _ =>
          ⟨size_samples_step hsize hstep, ?_⟩⟩
        intro id hid
        have hold := hsame id (hid.of_isPrefix (List.prefix_append before [i]))
        refine sameAt_iff_agreeAt.2 ((sameAt_iff_agreeAt.1 hold).step
          (hs.kinds i (mem_of_isPrefix hb)) (fun hop hr pointer hp => ?_)
          (fun _ _ _ _ => by rw [hmatched.size])
          (fun hop hr => eval_congr fun w hw => hsame _ (clear_idWords hid hr hop w hw)) hstep hstep')
        unfold Machine.read
        rw [hmatched.contents pointer fun hV => not_breach_of_clear hid hr ⟨hop, pointer, hp, hV⟩]

end Separated

end TextureLift
