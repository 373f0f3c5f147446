import TextureLift.Proofs.Machine.Step
import TextureLift.Proofs.Module.Calls

/-!
# Machines that run again

A machine keeps the values of instructions from one run to the next. They never matter: whatever ran
before, and wherever it stopped, a run is the same as that of a new machine with the same memory.

An id has a value only if the machine got to the instruction that it is the result of, and then it
got through all the code before that. The values that this code looked up were there, so it looks up
constants and results of earlier instructions alone (`Builder.Settled`). A later run that meets the
same code gives those results anew before it looks them up (`Echoes.sameAt`), and what is looked up
in code that no run got through is missing for both machines.
-/

namespace TextureLift

theorem Inst.lookups_of_implicit {i : Inst} (hop : i.opcode.isImageSample = true)
    (hexplicit : i.opcode ≠ .imageSampleExplicitLod) : i.lookups = [0, 1] := by
  obtain ⟨op, t, r, operands⟩ := i
  cases op <;> first | rfl | exact absurd rfl hexplicit | cases hop

namespace Machine

variable {b : Builder} {texels : Texels} {m m' : Machine} {i : Inst} {id : Ref}

/-! ## What a step needs -/

/-- The operand at a position has a value, or there is none. -/
def Knows (m : Machine) (b : Builder) (i : Inst) (n : Nat) : Prop :=
  ∀ w, i.operands[n]? = some w → (m.value? b ⟨w⟩).isSome

theorem knows_of_lookup {w : UInt32} {v : Value} (h : m.lookup b ⟨w⟩ = .ok v) :
    (m.value? b ⟨w⟩).isSome := by
  unfold lookup at h
  split at h
  · rename_i hv
    rw [hv]
    rfl
  · cases h

theorem knows_of_operand {n : Nat} {v : Value} (h : m.operand b i n = .ok v) : m.Knows b i n := by
  intro w hw
  obtain ⟨r, hr, h⟩ := exists_of_bind h
  unfold Inst.operandRef? at hr
  rw [hw] at hr
  obtain rfl := Except.ok.inj hr
  exact knows_of_lookup h

theorem knows_of_floats {n : Nat} {bits : List UInt32} (h : m.floats b i n = .ok bits) :
    m.Knows b i n := by
  obtain ⟨v, hv, -⟩ := exists_of_bind h
  exact knows_of_operand hv

theorem knows_of_scalar {n : Nat} {bits : UInt32} (h : m.scalar b i n = .ok bits) :
    m.Knows b i n := by
  obtain ⟨v, hv, -⟩ := exists_of_bind h
  exact knows_of_operand hv

theorem knows_of_mapM {words : List UInt32} {vs : List Value}
    (h : words.mapM (fun w => m.lookup b ⟨w⟩) = .ok vs) : ∀ w ∈ words, (m.value? b ⟨w⟩).isSome := by
  induction words generalizing vs with
  | nil => simp
  | cons w words ih =>
    rw [List.mapM_cons] at h
    obtain ⟨v, hv, h⟩ := exists_of_bind h
    obtain ⟨vs', hvs, -⟩ := exists_of_bind h
    exact List.forall_mem_cons.2 ⟨knows_of_lookup hv, ih hvs⟩

theorem knows_of_evalExt {v : Value} (hop : i.opcode = .extInst) (h : m.evalExt b i = .ok v) :
    ∀ n ∈ i.lookups, m.Knows b i n := by
  obtain ⟨word, hword, h⟩ := exists_of_bind h
  have hext : i.operands[1]? = some word := expect_eq_ok hword
  simp only [Inst.lookups, hop, hext, Option.bind_some]
  split at h <;> rename_i hop' <;> simp only [hop', List.forall_mem_cons, List.not_mem_nil,
      IsEmpty.forall_iff, implies_true, and_true]
  · obtain ⟨_, h2, -⟩ := exists_of_bind h
    exact knows_of_floats h2
  · obtain ⟨_, h2, h⟩ := exists_of_bind h
    obtain ⟨_, h3, h⟩ := exists_of_bind h
    obtain ⟨_, h4, -⟩ := exists_of_bind h
    exact ⟨knows_of_floats h2, knows_of_floats h3, knows_of_floats h4⟩
  · obtain ⟨_, h2, -⟩ := exists_of_bind h
    exact knows_of_floats h2
  · obtain ⟨_, h2, -⟩ := exists_of_bind h
    exact knows_of_scalar h2

/-- A computation that is not refused found the values of its operands. -/
theorem knows_of_eval {v : Value} (h : m.eval b i = .ok v) : ∀ n ∈ i.lookups, m.Knows b i n := by
  unfold eval at h
  split at h <;> rename_i hop
  case h_1 =>
    obtain ⟨vs, hvs, -⟩ := exists_of_bind h
    intro n _ w hw
    exact knows_of_mapM hvs w (List.mem_of_getElem? hw)
  case h_15 => exact knows_of_evalExt hop h
  case h_16 => cases h
  all_goals
    simp only [Inst.lookups, hop, List.forall_mem_cons, List.not_mem_nil,
      IsEmpty.forall_iff, implies_true, and_true]
    obtain ⟨_, h0, h⟩ := exists_of_bind h
  case h_2 | h_8 | h_9 | h_10 => exact knows_of_operand h0
  case h_6 | h_7 => exact knows_of_floats h0
  all_goals obtain ⟨_, h1, h⟩ := exists_of_bind h
  · exact ⟨knows_of_scalar h0, knows_of_operand h1⟩
  · exact ⟨knows_of_operand h0, knows_of_operand h1⟩
  · exact ⟨knows_of_operand h0, knows_of_scalar h1⟩
  · exact ⟨knows_of_floats h0, knows_of_floats h1⟩
  all_goals obtain ⟨_, h2, h⟩ := exists_of_bind h
  · obtain ⟨_, h3, h⟩ := exists_of_bind h
    exact ⟨knows_of_scalar h0, knows_of_scalar h1, knows_of_scalar h2, knows_of_scalar h3⟩
  · exact ⟨knows_of_scalar h0, knows_of_scalar h1, knows_of_scalar h2⟩
  · exact ⟨knows_of_scalar h0, knows_of_scalar h1, knows_of_scalar h2⟩

theorem knows_of_sampleCall {call : SampleCall} (hop : i.opcode.isImageSample = true)
    (h : m.sampleCall b i = .ok call) : ∀ n ∈ i.lookups, m.Knows b i n := by
  obtain ⟨v, hv, h⟩ := exists_of_bind h
  have h0 : m.Knows b i 0 := knows_of_operand hv
  cases v with
  | lanes kind bits => cases h
  | image source =>
    obtain ⟨coord, hcoord, h⟩ := exists_of_bind h
    have h1 : m.Knows b i 1 := knows_of_floats hcoord
    by_cases hexplicit : i.opcode = .imageSampleExplicitLod
    · rw [if_pos hexplicit] at h
      obtain ⟨mask, hmask, h⟩ := exists_of_bind h
      have hmask : i.operands[2]? = some mask := expect_eq_ok hmask
      simp only [Inst.lookups, hexplicit, hmask, Option.getD_some]
      by_cases hlod : mask &&& lodBit ≠ 0
      · rw [if_pos hlod] at h ⊢
        obtain ⟨lod, h3, -⟩ := exists_of_bind h
        simp [h0, h1, knows_of_floats h3]
      · rw [if_neg hlod] at h ⊢
        by_cases hgrad : mask &&& gradBit ≠ 0
        · rw [if_pos hgrad] at h ⊢
          obtain ⟨dx, h3, h⟩ := exists_of_bind h
          obtain ⟨dy, h4, -⟩ := exists_of_bind h
          simp [h0, h1, knows_of_floats h3, knows_of_floats h4]
        · rw [if_neg hgrad]
          simp [h0, h1]
    · rw [Inst.lookups_of_implicit hop hexplicit]
      simp [h0, h1]

theorem sampleCall_congr_lookups (hop : i.opcode.isImageSample = true)
    (h : ∀ n ∈ i.lookups, ∀ w, i.operands[n]? = some w → m.SameAt m' ⟨w⟩) :
    m.sampleCall b i = m'.sampleCall b i := by
  have hfirst : 0 ∈ i.lookups ∧ 1 ∈ i.lookups := by
    by_cases hexplicit : i.opcode = .imageSampleExplicitLod
    · simp only [Inst.lookups, hexplicit]
      split_ifs <;> simp
    · rw [Inst.lookups_of_implicit hop hexplicit]
      decide
  unfold sampleCall
  rw [operand_congr (h 0 hfirst.1), floats_congr (h 1 hfirst.2)]
  by_cases hexplicit : i.opcode = .imageSampleExplicitLod
  · cases hmask : i.operands[2]? with
    | none =>
      unfold literal
      rw [hmask]
      rfl
    | some mask =>
      rw [literal_of_operands hmask]
      simp only [Inst.lookups, hexplicit, hmask, Option.getD_some] at h
      simp only [bind, Except.bind]
      by_cases hlod : mask &&& lodBit ≠ 0
      · rw [if_pos hlod] at h
        simp only [if_pos hlod, floats_congr (h 3 (by decide))]
      · rw [if_neg hlod] at h
        by_cases hgrad : mask &&& gradBit ≠ 0
        · rw [if_pos hgrad] at h
          simp only [if_neg hlod, if_pos hgrad, floats_congr (h 3 (by decide)),
            floats_congr (h 4 (by decide))]
        · simp only [if_neg hlod, if_neg hgrad]
  · simp only [if_neg hexplicit]

theorem isPure_of_eval {v : Value} (h : m.eval b i = .ok v) : i.opcode.isPure = true := by
  unfold eval at h
  split at h <;> rename_i hop
  case h_16 => cases h
  all_goals rw [hop]; rfl

/-- What neither touches memory nor samples is computed, or refused because it is no code. -/
theorem step_eq_eval (hframe : i.opcode.isFrame = false) (hload : i.opcode ≠ .load)
    (hstore : i.opcode ≠ .store) (hsample : i.opcode.isImageSample = false) :
    m.step b texels i = (m.eval b i).map (m.define i) := by
  unfold step
  cases hop : i.opcode <;> rw [hop] at hframe hload hstore hsample
  all_goals first
    | contradiction
    | show ((m.eval b i).bind fun v => _) = _
      cases m.eval b i <;> rfl

end Machine

/-! ## Results -/

/-- The instruction gives its result a value. -/
def Inst.Gives (i : Inst) (id : Ref) : Prop :=
  i.opcode.yields = true ∧ i.result = some id

theorem Inst.not_gives_of_isFrame {i : Inst} (hop : i.opcode.isFrame = true) (id : Ref) :
    ¬ i.Gives id := by
  rintro ⟨hyields, -⟩
  cases hi : i.opcode <;> first
    | (rw [hi] at hop; cases hop; done)
    | (rw [hi] at hyields; cases hyields)

/-- The ids that code gives values to. -/
def computed (code : List Inst) : List Ref :=
  resultsOf (code.filter (·.opcode.yields))

theorem mem_computed_concat {before : List Inst} {i : Inst} {id : Ref} :
    id ∈ computed (before ++ [i]) ↔ id ∈ computed before ∨ i.Gives id := by
  unfold computed Inst.Gives
  rw [List.filter_append, resultsOf_append, List.mem_append]
  cases hi : i.opcode.yields <;> simp [hi, resultsOf]

theorem computed_subset {before code : List Inst} (h : before <+: code) :
    computed before ⊆ computed code := by
  obtain ⟨rest, rfl⟩ := h
  unfold computed
  rw [List.filter_append, resultsOf_append]
  exact List.subset_append_left ..

namespace Machine

variable {b : Builder} {texels : Texels} {m m' m₁ : Machine} {i : Inst} {id : Ref}

theorem knows_of_step (h : m.step b texels i = .ok m₁) : ∀ n ∈ i.lookups, m.Knows b i n := by
  cases effect_of_step h with
  | pass hop =>
    have hnone : i.lookups = [] := by
      obtain ⟨op, t, r, operands⟩ := i
      cases op <;> first | rfl | cases hop
    simp [hnone]
  | load hop => simp [Inst.lookups, hop]
  | store hop hp hv =>
    simp only [Inst.lookups, hop, List.forall_mem_singleton]
    exact knows_of_operand hv
  | sample hop hc => exact knows_of_sampleCall hop hc
  | compute hop hv => exact knows_of_eval hv

/-- A step changes the value of its result alone. -/
theorem values_step (h : m.step b texels i = .ok m₁) (id : Ref) :
    i.Gives id ∨ m₁.values[id.word]? = m.values[id.word]? := by
  have hdefine (m : Machine) (v : Value) (hop : i.opcode.yields = true) :
      i.Gives id ∨ (m.define i v).values[id.word]? = m.values[id.word]? := by
    by_cases hr : i.result = some id
    · exact .inl ⟨hop, hr⟩
    · refine .inr ?_
      cases hi : i.result with
      | none => simp [define, hi]
      | some r =>
        rw [values_define m v hi, if_neg]
        rintro rfl
        exact hr hi
  cases effect_of_step h with
  | pass => exact .inr rfl
  | load hop => exact hdefine _ _ (by rw [hop]; rfl)
  | store => exact .inr rfl
  | sample hop hc =>
    refine hdefine { m with samples := _ } _ ?_
    cases hi : i.opcode <;> first | rfl | (rw [hi] at hop; cases hop)
  | compute hop hv => exact hdefine _ _ (Opcode.yields_of_isPure (isPure_of_eval hv))

/-! ## Machines that agree -/

/-- The machines have the same memory and requests, and the same values for some ids. -/
structure Agree (known : Ref → Prop) (m m' : Machine) : Prop where
  memory : m.memory = m'.memory
  samples : m.samples = m'.samples
  values : ∀ id, known id → m.SameAt m' id

theorem Agree.define {known : Ref → Prop} (h : Agree known m m') (v : Value) :
    Agree (fun id => known id ∨ i.result = some id) (m.define i v) (m'.define i v) where
  memory := by rw [memory_define, memory_define, h.memory]
  samples := by rw [samples_define, samples_define, h.samples]
  values id hid := by
    rcases hid with hid | hid
    · exact (h.values id hid).define fun _ => rfl
    · unfold SameAt
      rw [values_define m v hid, values_define m' v hid]
      simp

theorem Agree.imp {known known' : Ref → Prop} (h : Agree known m m')
    (hk : ∀ id, known' id → known id) : Agree known' m m' :=
  ⟨h.memory, h.samples, fun id hid => h.values id (hk id hid)⟩

/-- Both machines refuse the instruction for the same reason, or both go on and agree on its result
too. -/
def Alongside (b : Builder) (texels : Texels) (known : Ref → Prop) (m m' : Machine) (i : Inst) :
    Prop :=
  (∃ stop, m.step b texels i = .error stop ∧ m'.step b texels i = .error stop) ∨
  ∃ m₁ m₁', m.step b texels i = .ok m₁ ∧ m'.step b texels i = .ok m₁' ∧
    Agree (fun id => known id ∨ i.Gives id) m₁ m₁'

section Alongside

variable {known : Ref → Prop} (h : Agree known m m')
include h

theorem Agree.given (v : Value) :
    Agree (fun id => known id ∨ i.Gives id) (m.define i v) (m'.define i v) :=
  (h.define v).imp fun _ hid => hid.imp_right And.right

theorem alongside_of_load (hop : i.opcode = .load) : Alongside b texels known m m' i := by
  unfold Alongside
  rw [step_of_load hop, step_of_load hop]
  cases expect i (i.operandRef? 0) with
  | error stop => exact .inl ⟨stop, rfl, rfl⟩
  | ok pointer =>
    have hread : m.read b pointer = m'.read b pointer := by
      unfold read contents?
      rw [h.memory]
    refine .inr ⟨m.define i (m.read b pointer), m'.define i (m'.read b pointer), rfl, rfl, ?_⟩
    rw [hread]
    exact h.given _

theorem alongside_of_store (hop : i.opcode = .store) (hvalue : m.operand b i 1 = m'.operand b i 1) :
    Alongside b texels known m m' i := by
  unfold Alongside
  rw [step_of_store hop, step_of_store hop, hvalue]
  cases expect i (i.operandRef? 0) with
  | error stop => exact .inl ⟨stop, rfl, rfl⟩
  | ok pointer =>
    cases m'.operand b i 1 with
    | error stop => exact .inl ⟨stop, rfl, rfl⟩
    | ok v =>
      have hwrite : (m.write pointer v).memory = (m'.write pointer v).memory := by
        unfold write
        rw [h.memory]
      refine .inr ⟨m.write pointer v, m'.write pointer v, rfl, rfl, hwrite, h.samples, ?_⟩
      intro id hid
      refine h.values id (hid.resolve_right fun hgives => ?_)
      rw [Inst.Gives, hop] at hgives
      cases hgives.1

theorem alongside_of_isImageSample (hop : i.opcode.isImageSample = true)
    (hcall : m.sampleCall b i = m'.sampleCall b i) : Alongside b texels known m m' i := by
  unfold Alongside
  rw [step_of_isImageSample hop, step_of_isImageSample hop, hcall]
  cases m'.sampleCall b i with
  | error stop => exact .inl ⟨stop, rfl, rfl⟩
  | ok call =>
    have hasked : Agree known { m with samples := m'.samples.push call }
        { m' with samples := m'.samples.push call } := ⟨h.memory, rfl, h.values⟩
    refine .inr ⟨_, _, rfl, rfl, ?_⟩
    unfold answer
    rw [h.samples]
    exact hasked.given _

/-- Machines that agree on what an instruction looks up do the same with it. -/
theorem step_alongside
    (hknown : ∀ n ∈ i.lookups, ∀ w, i.operands[n]? = some w → m.SameAt m' ⟨w⟩) :
    Alongside b texels known m m' i := by
  by_cases hframe : i.opcode.isFrame = true
  · exact .inr ⟨m, m', step_of_isFrame hframe, step_of_isFrame hframe,
      h.imp fun id hid => hid.resolve_right (Inst.not_gives_of_isFrame hframe id)⟩
  by_cases hload : i.opcode = .load
  · exact alongside_of_load h hload
  by_cases hstore : i.opcode = .store
  · exact alongside_of_store h hstore (operand_congr (hknown 1 (by simp [Inst.lookups, hstore])))
  by_cases hsample : i.opcode.isImageSample = true
  · exact alongside_of_isImageSample h hsample (sampleCall_congr_lookups hsample hknown)
  simp only [Bool.not_eq_true] at hframe hsample
  unfold Alongside
  rw [step_eq_eval hframe hload hstore hsample, step_eq_eval hframe hload hstore hsample,
    eval_congr_lookups hknown]
  cases m'.eval b i with
  | error stop => exact .inl ⟨stop, rfl, rfl⟩
  | ok v => exact .inr ⟨_, _, rfl, rfl, h.given v⟩

end Alongside

end Machine

/-! ## What earlier runs leave -/

namespace Builder

variable {b : Builder} {before : List Inst} {i : Inst}

/-- Every instruction looks up constants and results of the instructions before it. -/
def Settled (b : Builder) (code : List Inst) : Prop :=
  ∀ before i, before ++ [i] <+: code → ∀ n ∈ i.lookups, ∀ w, i.operands[n]? = some w →
    (b.constantValue? ⟨w⟩).isSome ∨ ⟨w⟩ ∈ computed before

theorem Settled.concat (h : b.Settled before)
    (hi : ∀ n ∈ i.lookups, ∀ w, i.operands[n]? = some w →
      (b.constantValue? ⟨w⟩).isSome ∨ ⟨w⟩ ∈ computed before) : b.Settled (before ++ [i]) := by
  intro before' j hj
  rcases List.prefix_concat_iff.1 hj with hj | hj
  · obtain ⟨rfl, hji⟩ := List.append_inj' hj rfl
    obtain rfl := List.singleton_inj.1 hji
    exact hi
  · exact h before' j hj

/-- Results have no value of their own, as constants do. -/
theorem Numbered.constantValue?_of_computed (hb : b.Numbered) (id : Ref)
    (hid : id ∈ computed b.body.toList) : b.constantValue? id = none := by
  obtain ⟨i, hi, hr⟩ := mem_resultsOf.1 hid
  have hconstant : b.constant? id = none := by
    unfold constant?
    rcases (hb.results i (List.mem_of_mem_filter hi) id hr).2 with ⟨hd, -⟩ | ⟨t, -, hd⟩ <;> rw [hd]
  unfold constantValue?
  rw [hconstant]
  rfl

end Builder

theorem prefix_or_eq {before reach body : List Inst} {i : Inst} (h : before <+: reach)
    (hreach : reach <+: body) (hi : before ++ [i] <+: body) :
    reach = before ∨ before ++ [i] <+: reach := by
  rcases Nat.lt_or_ge before.length reach.length with hlt | hge
  · exact .inr (List.prefix_of_prefix_length_le hi hreach (by simp; omega))
  · exact .inl (h.eq_of_length_le hge).symm

namespace Machine

variable {b : Builder} {texels : Texels} {m m' m₁ : Machine} {i : Inst} {id : Ref}
  {before reach : List Inst}

/-- The values of a machine are those of code that it has got through. -/
structure Tidy (b : Builder) (reach : List Inst) (m : Machine) : Prop where
  within : reach <+: b.body.toList
  settled : b.Settled reach
  values : ∀ id, (m.values[id.word]?).isSome → id ∈ computed reach

/-- A machine that has run before and a new one, after the same code. -/
structure Echoes (b : Builder) (before reach : List Inst) (m m' : Machine) : Prop
    extends Tidy b reach m where
  agree : Agree (· ∈ computed before) m m'
  fresh : ∀ id, (m'.values[id.word]?).isSome → id ∈ computed before
  passed : before <+: reach

theorem isSome_value? {id : Ref} : (m.value? b id).isSome ↔
    (m.values[id.word]?).isSome ∨ (b.constantValue? id).isSome := by
  unfold value?
  rw [Option.isSome_or, Bool.or_eq_true]

/-- What an instruction looks up is the same, unless it is not there. -/
theorem Echoes.sameAt (h : Echoes b before reach m m')
    (hconst : ∀ id ∈ computed b.body.toList, b.constantValue? id = none)
    (hi : before ++ [i] <+: b.body.toList) {n : Nat} (hn : n ∈ i.lookups) {w : UInt32}
    (hw : i.operands[n]? = some w) : m.SameAt m' ⟨w⟩ := by
  by_cases hid : ⟨w⟩ ∈ computed before
  · exact h.agree.values _ hid
  have hnew : m'.values[w]? = none := by
    refine Option.not_isSome_iff_eq_none.1 fun hsome => hid (h.fresh ⟨w⟩ hsome)
  have hold : m.values[w]? = none := by
    refine Option.not_isSome_iff_eq_none.1 fun hsome => hid ?_
    have hreach := h.values ⟨w⟩ hsome
    -- a value from an earlier run shows that the run got past this instruction
    rcases prefix_or_eq h.passed h.within hi with rfl | hpast
    · exact hreach
    · refine (h.settled before i hpast n hn w hw).resolve_left fun hc => ?_
      rw [hconst _ (computed_subset h.within hreach)] at hc
      cases hc
  exact hold.trans hnew.symm

theorem Echoes.step (texels : Texels) (h : Echoes b before reach m m')
    (hconst : ∀ id ∈ computed b.body.toList, b.constantValue? id = none)
    (hi : before ++ [i] <+: b.body.toList) :
    (∃ stop, m.step b texels i = .error stop ∧ m'.step b texels i = .error stop) ∨
    ∃ m₁ m₁' reach', m.step b texels i = .ok m₁ ∧ m'.step b texels i = .ok m₁' ∧
      Echoes b (before ++ [i]) reach' m₁ m₁' := by
  have hsame (n : Nat) (hn : n ∈ i.lookups) (w : UInt32) (hw : i.operands[n]? = some w) :
      m.SameAt m' ⟨w⟩ := h.sameAt hconst hi hn hw
  refine (step_alongside h.agree hsame).imp_right ?_
  rintro ⟨m₁, m₁', hs, hs', hagree⟩
  have hagree : Agree (· ∈ computed (before ++ [i])) m₁ m₁' :=
    hagree.imp fun id hid => mem_computed_concat.1 hid
  have hfresh (id : Ref) (hid : (m₁'.values[id.word]?).isSome) : id ∈ computed (before ++ [i]) := by
    refine mem_computed_concat.2 ?_
    rcases values_step hs' id with hgives | heq
    · exact .inr hgives
    · exact .inl (h.fresh id (heq ▸ hid))
  have hgiven {code : List Inst} (hcode : before ++ [i] <+: code)
      (hold : ∀ id, (m.values[id.word]?).isSome → id ∈ computed code) (id : Ref)
      (hid : (m₁.values[id.word]?).isSome) : id ∈ computed code := by
    rcases values_step hs id with hgives | heq
    · exact computed_subset hcode (mem_computed_concat.2 (.inr hgives))
    · exact hold id (heq ▸ hid)
  rcases prefix_or_eq h.passed h.within hi with rfl | hpast
  · -- new ground: what was looked up was there, so it is in order
    have hsettled : b.Settled (reach ++ [i]) := by
      refine h.settled.concat fun n hn w hw => ?_
      refine (isSome_value?.1 (knows_of_step hs' n hn w hw)).symm.imp_right fun hv => ?_
      exact h.fresh ⟨w⟩ hv
    have hvalues := hgiven (List.prefix_refl _) fun id hid =>
      mem_computed_concat.2 (.inl (h.values id hid))
    exact ⟨m₁, m₁', reach ++ [i], hs, hs', ⟨hi, hsettled, hvalues⟩, hagree, hfresh, List.prefix_refl _⟩
  · have hvalues := hgiven hpast h.values
    exact ⟨m₁, m₁', reach, hs, hs', ⟨h.within, h.settled, hvalues⟩, hagree, hfresh, hpast⟩

theorem Echoes.steps (hconst : ∀ id ∈ computed b.body.toList, b.constantValue? id = none)
    {code : List Inst} (h : Echoes b before reach m m') (hcode : before ++ code = b.body.toList) :
    (m.steps b texels code).2 = (m'.steps b texels code).2 ∧
    ∃ before' reach', Echoes b before' reach' (m.steps b texels code).1
      (m'.steps b texels code).1 := by
  induction code generalizing before reach m m' with
  | nil => exact ⟨rfl, before, reach, h⟩
  | cons i code ih =>
    have hi : before ++ [i] <+: b.body.toList := ⟨code, by rw [← hcode]; simp⟩
    unfold Machine.steps
    rcases h.step texels hconst hi with ⟨stop, hs, hs'⟩ | ⟨m₁, m₁', reach', hs, hs', h'⟩
    · rw [hs, hs']
      exact ⟨rfl, before, reach, h⟩
    · rw [hs, hs']
      exact ih h' (by rw [← hcode]; simp)

/-! ## Any number of runs -/

/-- One use of a machine. -/
inductive Use where
  | write (pointer : Ref) (value : Value)
  | run (texels : Texels)

/-- The machine after a use. A run may have stopped before the end of the body. -/
def use (b : Builder) (m : Machine) : Use → Machine
  | .write pointer value => m.write pointer value
  | .run texels => (m.run b texels).1

/-- A run starts as that of a new machine with the same memory, so it goes on like it. -/
theorem Tidy.run (texels : Texels) (hb : b.Numbered) (h : Tidy b reach m) :
    (m.run b texels).2 = (run b texels { memory := m.memory }).2 ∧
    ∃ before' reach', Echoes b before' reach' (m.run b texels).1
      (run b texels { memory := m.memory }).1 := by
  have hstart : Echoes b [] reach { m with samples := #[] } { memory := m.memory } :=
    { h with
      agree := ⟨rfl, rfl, fun id hid => by cases hid⟩
      fresh := fun id hid => by simp at hid
      passed := List.nil_prefix }
  exact hstart.steps hb.constantValue?_of_computed rfl

theorem tidy_start (b : Builder) (memory : WordMap Value) : Tidy b [] { memory } where
  within := List.nil_prefix
  settled before i hi := by simp at hi
  values id hid := by simp at hid

theorem Tidy.use (hb : b.Numbered) (h : Tidy b reach m) (u : Use) :
    ∃ reach', Tidy b reach' (m.use b u) := by
  cases u with
  | write pointer value => exact ⟨reach, h.within, h.settled, h.values⟩
  | run texels =>
    obtain ⟨-, _, reach', h'⟩ := h.run texels hb
    exact ⟨reach', h'.toTidy⟩

theorem Tidy.uses (hb : b.Numbered) (h : Tidy b reach m) (uses : List Use) :
    ∃ reach', Tidy b reach' (uses.foldl (Machine.use b) m) := by
  induction uses generalizing reach m with
  | nil => exact ⟨reach, h⟩
  | cons u uses ih =>
    obtain ⟨reach', h'⟩ := h.use hb u
    exact ih h'

/-- Values of a new machine are values of the machine that ran before. -/
theorem Echoes.value? (hb : b.Numbered) (h : Echoes b before reach m m') {v : Value}
    (hv : m'.value? b id = some v) : m.value? b id = some v := by
  unfold Machine.value? at hv ⊢
  cases hnew : m'.values[id.word]? with
  | some v' =>
    have hsame := h.agree.values id (h.fresh id (by rw [hnew]; rfl))
    rwa [hsame]
  | none =>
    rw [hnew, Option.none_or] at hv
    have hold : m.values[id.word]? = none := by
      refine Option.not_isSome_iff_eq_none.1 fun hsome => ?_
      rw [hb.constantValue?_of_computed id (computed_subset h.within (h.values id hsome))] at hv
      cases hv
    rwa [hold]

/-- Values that earlier runs left never matter: a machine that was used before runs as a new machine
with the same memory does, and refuses what the new one refuses. -/
theorem run_eq_run_of_memory {calls : List Call} {rs : List (Option Ref)}
    (h : calls.mapM Call.run {} = .ok (rs, b)) (memory : WordMap Value) (uses : List Use)
    (texels : Texels) :
    let used := uses.foldl (use b) { memory }
    let again := used.run b texels
    let anew := run b texels { memory := used.memory }
    again.2 = anew.2 ∧ again.1.samples = anew.1.samples ∧ again.1.memory = anew.1.memory ∧
      ∀ id v, anew.1.value? b id = some v → again.1.value? b id = some v := by
  have hb : b.Numbered := ((Call.runs_records calls).result Builder.tabled_empty h).1.toNumbered
  intro used again anew
  obtain ⟨reach, hused⟩ := (tidy_start b memory).uses hb uses
  obtain ⟨hstop, before', reach', hecho⟩ := hused.run texels hb
  exact ⟨hstop, hecho.agree.samples, hecho.agree.memory, fun id v => hecho.value? hb⟩

/-- Loads a vector, takes its last lane and squares it. -/
def lastLaneCalls : List Call :=
  [.type (.float 32), .vectorType ⟨1⟩ 4, .variableOf .priv ⟨2⟩, .load ⟨4⟩, .extract ⟨5⟩ 3,
    .emit .fMul ⟨1⟩ [6, 6]]

/-- A run gives every result a value; then the variable gets a single lane. -/
def lastLaneUses : List Use :=
  [.run fun _ _ => ⟨0, 0, 0, 0⟩, .write ⟨4⟩ (.lanes .f32 [0])]

theorem run_eq_run_of_memory_lastLane : ∃ rs b, lastLaneCalls.mapM Call.run {} = .ok (rs, b) ∧
    let used := lastLaneUses.foldl (use b) {}
    (used.value? b ⟨7⟩).isSome ∧
      (used.run b fun _ _ => ⟨0, 0, 0, 0⟩).2 = some (.error (.malformed .compositeExtract)) ∧
      (run b (fun _ _ => ⟨0, 0, 0, 0⟩) { memory := used.memory }).2 =
        some (.error (.malformed .compositeExtract)) := by
  have hused : (lastLaneCalls.mapM Call.run {}).toOption.map (fun r =>
      let used := lastLaneUses.foldl (use r.2) {}
      ((used.value? r.2 ⟨7⟩).isSome, (used.run r.2 fun _ _ => ⟨0, 0, 0, 0⟩).2)) =
      some (true, some (.error (.malformed .compositeExtract))) := by
    decide +kernel
  obtain ⟨⟨rs, b⟩, h, hparts⟩ := exists_of_toOption_map hused
  obtain ⟨hvalue, hstop⟩ := Prod.mk.inj hparts
  have hsame := (run_eq_run_of_memory h ∅ lastLaneUses fun _ _ => ⟨0, 0, 0, 0⟩).1
  exact ⟨rs, b, h, hvalue, hstop, hsame.symm.trans hstop⟩

end Machine

end TextureLift
