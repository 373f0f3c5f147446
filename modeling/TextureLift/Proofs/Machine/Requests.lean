import TextureLift.Proofs.Machine.Flow
import TextureLift.Proofs.Machine.Reuse
import TextureLift.Proofs.Machine.Soundness

/-!
# Requests and the instructions that make them

A run that gets through the body makes one request for each sample of the body, in order, and samples
at the value of the instruction's second operand. In a sound module this value is known from the type
of the operand: a coordinate has as many floats as its id has components.
-/

namespace TextureLift

open Builder

namespace Machine

variable {b : Builder} {texels : Texels} {m m₁ m' : Machine} {i : Inst} {id : Ref} {code : List Inst}

/-- Code changes the values of its results alone. -/
theorem values_steps (h : m.steps b texels code = (m', none)) (hid : id ∉ resultsOf code) :
    m'.values[id.word]? = m.values[id.word]? := by
  induction code generalizing m with
  | nil =>
    obtain ⟨rfl, -⟩ := Prod.mk.inj h
    rfl
  | cons i code ih =>
    obtain ⟨m₁, hs, h⟩ := exists_of_steps_cons h
    rw [ih h fun hmem => hid ?_]
    · refine (values_step hs id).resolve_left fun hgives => hid (mem_resultsOf.2 ⟨i, ?_, hgives.2⟩)
      exact List.mem_cons_self
    · obtain ⟨j, hj, hr⟩ := mem_resultsOf.1 hmem
      exact mem_resultsOf.2 ⟨j, List.mem_cons_of_mem i hj, hr⟩

/-- Requests stay to the end of a run. -/
theorem samples_steps (h : m.steps b texels code = (m', none)) {n : Nat} {call : SampleCall}
    (hcall : m.samples[n]? = some call) : m'.samples[n]? = some call := by
  induction code generalizing m with
  | nil =>
    obtain ⟨rfl, -⟩ := Prod.mk.inj h
    exact hcall
  | cons i code ih =>
    obtain ⟨m₁, hs, h⟩ := exists_of_steps_cons h
    exact ih h (samples_persist hs hcall)

/-- Each sample of the code makes the request at its own position. -/
theorem exists_request (h : m.steps b texels code = (m', none)) {n : Nat}
    (hi : (samplesOf code)[n]? = some i) :
    ∃ before after mid call, code = before ++ i :: after ∧
      m.steps b texels before = (mid, none) ∧ mid.sampleCall b i = .ok call ∧
      m'.samples[m.samples.size + n]? = some call := by
  induction code generalizing m n with
  | nil => simp [samplesOf] at hi
  | cons j code ih =>
    obtain ⟨m₁, hs, h⟩ := exists_of_steps_cons h
    rcases samples_step hs with ⟨hop, hsamples⟩ | ⟨hop, call, hcall, hsamples⟩
    · rw [show samplesOf (j :: code) = samplesOf code from
        List.filter_cons_of_neg (by rw [hop]; decide)] at hi
      obtain ⟨before, after, mid, call, rfl, hb, hcall, hget⟩ := ih h hi
      rw [hsamples] at hget
      exact ⟨j :: before, after, mid, call, rfl, (steps_cons hs).trans hb, hcall, hget⟩
    · rw [show samplesOf (j :: code) = j :: samplesOf code from List.filter_cons_of_pos hop] at hi
      cases n with
      | zero =>
        obtain rfl := Option.some.inj hi
        refine ⟨[], code, m, call, rfl, rfl, hcall, samples_steps h ?_⟩
        rw [hsamples]
        simp
      | succ n =>
        obtain ⟨before, after, mid, call', rfl, hb, hcall', hget⟩ := ih h hi
        refine ⟨j :: before, after, mid, call', rfl, (steps_cons hs).trans hb, hcall', ?_⟩
        rw [hsamples, Array.size_push, Nat.add_assoc, Nat.add_comm 1] at hget
        exact hget

theorem floats_of_sampleCall {call : SampleCall} (h : m.sampleCall b i = .ok call) :
    m.floats b i 1 = .ok call.coord := by
  unfold sampleCall at h
  obtain ⟨image, -, h⟩ := exists_of_bind h
  cases image with
  | lanes kind bits => cases h
  | image source =>
    obtain ⟨coord, hcoord, h⟩ := exists_of_bind h
    rw [hcoord]
    refine congrArg Except.ok ?_
    -- every kind of sample ends with this coordinate
    dsimp only at h
    split at h
    · obtain ⟨mask, -, h⟩ := exists_of_bind h
      split at h
      · obtain ⟨lod, -, h⟩ := exists_of_bind h
        obtain rfl := Except.ok.inj h
        rfl
      · split at h
        · obtain ⟨dx, -, h⟩ := exists_of_bind h
          obtain ⟨dy, -, h⟩ := exists_of_bind h
          obtain rfl := Except.ok.inj h
          rfl
        · obtain rfl := Except.ok.inj h
          rfl
    · obtain rfl := Except.ok.inj h
      rfl

/-- Floats are the value of an operand. -/
theorem value?_of_floats {n : Nat} {bits : List UInt32} (h : m.floats b i n = .ok bits) :
    ∃ id, i.operandRef? n = some id ∧ m.value? b id = some (.lanes .f32 bits) := by
  obtain ⟨v, hv, hbits⟩ := exists_of_bind h
  obtain ⟨id, hid, hv⟩ := exists_of_bind hv
  refine ⟨id, expect_eq_ok hid, ?_⟩
  unfold lookup at hv
  cases hvalue : m.value? b id with
  | none =>
    rw [hvalue] at hv
    cases hv
  | some w =>
    rw [hvalue] at hv
    obtain rfl := Except.ok.inj hv
    have hfloats := expect_eq_ok hbits
    cases w with
    | image source => cases hfloats
    | lanes kind bits =>
      cases kind with
      | f32 =>
        obtain rfl := Option.some.inj hfloats
        rfl
      | u32 | i32 => cases hfloats

end Machine

namespace Environment

variable {e : Environment} {b : Builder} {id : Ref}

/-- The results of code that is left are not known yet. -/
theorem Sound.value?_eq_none (hs : e.Sound b) {before after : List Inst} {mid : Machine}
    (hbody : b.body.toList = before ++ after)
    (hmid : e.start.steps b e.texels before = (mid, none)) (hid : id ∈ resultsOf after) :
    mid.value? b id = none := by
  have hbefore : id ∉ resultsOf before := by
    intro hmem
    have hascending := hs.wellFormed.ascending
    rw [hbody, resultsOf_append, List.map_append] at hascending
    exact Nat.lt_irrefl _ ((List.pairwise_append.1 hascending).2.2 _
      (List.mem_map.2 ⟨id, hmem, rfl⟩) _ (List.mem_map.2 ⟨id, hid, rfl⟩))
  have hnone : mid.values[id.word]? = none := by
    rw [Machine.values_steps hmid hbefore]
    simp [start]
  unfold Machine.value?
  rw [hnone]
  -- a result is not a constant either
  obtain ⟨i, hi, hr⟩ := mem_resultsOf.1 hid
  have hmem : i ∈ b.body.toList := by
    rw [hbody]
    exact List.mem_append_right _ hi
  have hconstant : b.constant? id = none := by
    refine Option.eq_none_iff_forall_ne_some.2 fun c hc => ?_
    have hd := constant?_eq_some.1 hc
    rcases (hs.wellFormed.results i hmem id hr).2 with ⟨hd', -⟩ | ⟨t, -, hd'⟩
    all_goals
      rw [hd] at hd'
      cases hd'
  show b.constantValue? id = none
  unfold constantValue?
  rw [hconstant]
  rfl

/-- Values stay to the end of a run. -/
theorem Sound.value?_of_steps (hs : e.Sound b) (hf : e.Fits b) {before after : List Inst}
    {mid : Machine} {v : Value} (hbody : b.body.toList = before ++ after)
    (hmid : e.start.steps b e.texels before = (mid, none)) (hv : mid.value? b id = some v) :
    (e.after b).value? b id = some v := by
  have hdone : e.start.steps b e.texels b.body.toList = (e.after b, none) := (hs.runs hf).done
  rw [hbody, Machine.steps_append _ _ _ _ hmid] at hdone
  have hnew : id ∉ resultsOf after := by
    intro hmem
    rw [hs.value?_eq_none hbody hmid hmem] at hv
    cases hv
  unfold Machine.value? at hv ⊢
  rw [Machine.values_steps hdone hnew]
  exact hv

/-- Ids have the lanes that their types state. -/
theorem Sound.hasLanes (hs : e.Sound b) (hf : e.Fits b) {k : ScalarKind} {bits : List UInt32}
    (hv : (e.after b).value? b id = some (.lanes k bits)) :
    ∃ n, b.HasLanes id k n ∧ bits.length = n.toNat := by
  unfold Machine.value? at hv
  cases hvalue : (e.after b).values[id.word]? with
  | some v =>
    rw [hvalue] at hv
    obtain rfl := Option.some.inj hv
    obtain ⟨t, ht⟩ := (hs.runs hf).known id _ hvalue
    obtain ⟨v, hv, htype⟩ := (hs.runs hf).values id t ht
    obtain rfl := Option.some.inj (hvalue.symm.trans hv)
    rcases hs.wellFormed.typing id _ ht with ⟨k', n, hl⟩ | ⟨image, himage⟩
    · obtain ⟨bits', heq, hlen⟩ := hl.of_hasType htype
      obtain ⟨rfl, rfl⟩ := Value.lanes.inj heq
      exact ⟨n, ⟨t, typeOf?_eq_some.2 ⟨_, ht, rfl⟩, hl⟩, hlen⟩
    · have hkind := htype.1
      unfold scalarKind? containedType at hkind
      simp [himage] at hkind
  | none =>
    rw [hvalue] at hv
    obtain ⟨⟨t, bit⟩, hconstant, hv⟩ := Option.bind_eq_some_iff.1
      (show b.constantValue? id = some _ from hv)
    obtain ⟨kind, hkind, hv⟩ := Option.bind_eq_some_iff.1 hv
    obtain ⟨rfl, rfl⟩ := Value.lanes.inj (Option.some.inj hv)
    have hd := constant?_eq_some.1 hconstant
    obtain ⟨k', hl⟩ := hs.wellFormed.typing id _ hd
    obtain rfl := Option.some.inj (hl.scalarKind.symm.trans hkind)
    exact ⟨1, ⟨t, typeOf?_eq_some.2 ⟨_, hd, rfl⟩, hl⟩, rfl⟩

/-- Each sample of a sound module requests as many floats as its coordinate has components. -/
theorem Sound.exists_coord (hs : e.Sound b) (hf : e.Fits b) {n : Nat} {i : Inst}
    (hi : (samplesOf b.body.toList)[n]? = some i) : ∃ coord call count,
      i.operandRef? 1 = some coord ∧ (e.after b).samples[n]? = some call ∧
      b.HasLanes coord .f32 count ∧ call.coord.length = count.toNat := by
  have hdone : e.start.steps b e.texels b.body.toList = (e.after b, none) := (hs.runs hf).done
  obtain ⟨before, after, mid, call, hbody, hmid, hcall, hget⟩ := Machine.exists_request hdone hi
  obtain ⟨coord, hcoord, hvalue⟩ := Machine.value?_of_floats (Machine.floats_of_sampleCall hcall)
  obtain ⟨count, hlanes, hlen⟩ := hs.hasLanes hf (hs.value?_of_steps hf hbody hmid hvalue)
  refine ⟨coord, call, count, hcoord, ?_, hlanes, hlen⟩
  have hsize : e.start.samples.size + n = n := Nat.zero_add n
  rwa [hsize] at hget

end Environment

end TextureLift
