import Mathlib.Data.List.Induction
import TextureLift.Proofs.Machine.Growth
import TextureLift.Proofs.Module.Scope

/-!
# Steps of the machine

What the machine does with each kind of instruction, refusals included (`step_of_load` and so on),
what a step that is not refused can do (`Effect`), and what it looks at: the values of the ids among
the operands (`eval_congr`). From these, what runs leave alone.
-/

namespace TextureLift

theorem WordMap.getElem?_insert {α : Type} (map : WordMap α) (k k' : UInt32) (a : α) :
    (map.insert k a)[k']? = if k = k' then some a else map[k']? := by
  rw [Std.ExtTreeMap.getElem?_insert]
  have h : compare k k' = .eq ↔ k = k' := Std.LawfulEqCmp.compare_eq_iff_eq
  simp only [h]

theorem WordMap.getElem?_insert_word {α : Type} (map : WordMap α) (id id' : Ref) (a : α) :
    (map.insert id.word a)[id'.word]? = if id = id' then some a else map[id'.word]? := by
  obtain ⟨w⟩ := id
  obtain ⟨w'⟩ := id'
  rw [getElem?_insert]
  simp only [Ref.mk.injEq]

/-! ## Operands that are looked up -/

/-- The positions of the operands whose values an instruction needs. The others are literals, pointers
or not looked at. -/
def Inst.lookups (i : Inst) : List Nat :=
  match i.opcode with
  | .compositeExtract | .convertFToU | .convertFToS | .convertUToF | .convertSToF | .bitcast => [0]
  | .store => [1]
  | .compositeInsert | .vectorShuffle | .vectorExtractDynamic | .fMul | .imageSampleImplicitLod
  | .imageSampleProjImplicitLod => [0, 1]
  | .bitFieldUExtract | .bitFieldSExtract => [0, 1, 2]
  | .bitFieldInsert => [0, 1, 2, 3]
  | .compositeConstruct => List.range i.operands.length
  | .extInst =>
    match i.operands[1]?.bind ExtOpcode.ofNumber? with
    | some .fClamp => [2, 3, 4]
    | some _ => [2]
    | none => []
  | .imageSampleExplicitLod =>
    if i.operands[2]?.getD 0 &&& Machine.lodBit ≠ 0 then [0, 1, 3]
    else if i.operands[2]?.getD 0 &&& Machine.gradBit ≠ 0 then [0, 1, 3, 4]
    else [0, 1]
  | _ => []

/-- What is looked up is an id. -/
theorem Inst.mem_idWords_of_lookups {i : Inst} {n : Nat} {w : UInt32} (hn : n ∈ i.lookups)
    (hw : i.operands[n]? = some w) : w ∈ i.idWords := by
  have htake {k : Nat} (hk : n < k) : w ∈ i.operands.take k :=
    List.mem_of_getElem? ((List.getElem?_take_of_lt hk).trans hw)
  have hdrop {k : Nat} (hk : k ≤ n) : w ∈ i.operands.drop k := by
    refine List.mem_of_getElem? (i := n - k) ?_
    rw [List.getElem?_drop, Nat.add_sub_cancel' hk]
    exact hw
  have hmem : w ∈ i.operands := List.mem_of_getElem? hw
  unfold lookups at hn
  split at hn <;> rename_i hop <;> simp only [idWords, hop]
  case h_14 | h_15 | h_16 | h_17 => exact hmem
  case h_18 =>
    refine List.mem_append_right _ (hdrop ?_)
    split at hn <;> simp at hn <;> omega
  case h_19 =>
    -- a literal stands between the two ids that there always are and the others
    rcases Nat.lt_or_ge n 2 with h2 | h2
    · exact List.mem_append_left _ (htake h2)
    · refine List.mem_append_right _ (hdrop ?_)
      split_ifs at hn <;> simp at hn <;> omega
  case h_20 => cases hn
  all_goals
    refine htake ?_
    simp at hn
    omega

/-- The first four lanes of a value. -/
def Value.front (v : Value) : List UInt32 :=
  v.bits.take 4

namespace Machine

variable {b : Builder} {texels : Texels} {m m' : Machine} {i : Inst} {id : Ref}

/-! ## Results and writes -/

theorem values_define (m : Machine) {r : Ref} (v : Value) (hr : i.result = some r) :
    (m.define i v).values[id.word]? = if r = id then some v else m.values[id.word]? := by
  unfold define
  rw [hr]
  exact WordMap.getElem?_insert_word ..

theorem memory_define (m : Machine) (i : Inst) (v : Value) : (m.define i v).memory = m.memory := by
  unfold define
  split <;> rfl

theorem samples_define (m : Machine) (i : Inst) (v : Value) : (m.define i v).samples = m.samples := by
  unfold define
  split <;> rfl

theorem memory_write (m : Machine) (pointer id : Ref) (v : Value) :
    (m.write pointer v).memory[id.word]? = if pointer = id then some v else m.memory[id.word]? :=
  WordMap.getElem?_insert_word ..

/-! ## Steps, by the kind of instruction -/

/-- The machine after a request was answered. -/
def answer (texels : Texels) (m : Machine) (i : Inst) (call : SampleCall) : Machine :=
  { m with samples := m.samples.push call }.define i
    (.lanes .f32 (texels m.samples.size call).lanes)

theorem step_of_isFrame (hop : i.opcode.isFrame = true) : m.step b texels i = .ok m := by
  unfold step
  cases h : i.opcode <;> first | rfl | (rw [h] at hop; cases hop)

theorem step_of_load (hop : i.opcode = .load) : m.step b texels i =
    (expect i (i.operandRef? 0)).map fun pointer => m.define i (m.read b pointer) := by
  unfold step
  rw [hop]
  cases i.operandRef? 0 <;> rfl

theorem step_of_store (hop : i.opcode = .store) : m.step b texels i =
    (expect i (i.operandRef? 0)).bind fun pointer => (m.operand b i 1).map (m.write pointer) := by
  unfold step
  rw [hop]
  cases i.operandRef? 0 with
  | none => rfl
  | some pointer =>
    show ((m.operand b i 1).bind fun v => _) = (m.operand b i 1).map (m.write pointer)
    cases m.operand b i 1 <;> rfl

theorem step_of_isImageSample (hop : i.opcode.isImageSample = true) : m.step b texels i =
    (m.sampleCall b i).map (m.answer texels i) := by
  unfold step
  cases h : i.opcode <;> try (rw [h] at hop; cases hop)
  all_goals
    show ((m.sampleCall b i).bind fun call => _) = _
    cases m.sampleCall b i <;> rfl

theorem step_of_isPure (hop : i.opcode.isPure = true) : m.step b texels i =
    (m.eval b i).map (m.define i) := by
  unfold step
  cases h : i.opcode <;> try (rw [h] at hop; cases hop)
  all_goals
    show ((m.eval b i).bind fun v => _) = _
    cases m.eval b i <;> rfl

/-! ## Values that two machines share -/

/-- The machines have the same value for an id. -/
def SameAt (m m' : Machine) (id : Ref) : Prop :=
  m.values[id.word]? = m'.values[id.word]?

theorem lookup_congr (h : m.SameAt m' id) : m.lookup b id = m'.lookup b id := by
  unfold lookup value?
  rw [h]

theorem operand_congr {n : Nat} (h : ∀ w, i.operands[n]? = some w → m.SameAt m' ⟨w⟩) :
    m.operand b i n = m'.operand b i n := by
  unfold operand Inst.operandRef?
  cases hw : i.operands[n]? with
  | none => rfl
  | some w => exact lookup_congr (h w hw)

theorem floats_congr {n : Nat} (h : ∀ w, i.operands[n]? = some w → m.SameAt m' ⟨w⟩) :
    m.floats b i n = m'.floats b i n := by
  unfold floats
  rw [operand_congr h]

theorem scalar_congr {n : Nat} (h : ∀ w, i.operands[n]? = some w → m.SameAt m' ⟨w⟩) :
    m.scalar b i n = m'.scalar b i n := by
  unfold scalar
  rw [operand_congr h]

theorem mapM_lookup_congr {words : List UInt32} (h : ∀ w ∈ words, m.SameAt m' ⟨w⟩) :
    words.mapM (fun w => m.lookup b ⟨w⟩) = words.mapM fun w => m'.lookup b ⟨w⟩ := by
  induction words with
  | nil => rfl
  | cons w words ih =>
    rw [List.mapM_cons, List.mapM_cons, lookup_congr (h w (List.mem_cons_self ..)),
      ih fun w' hw' => h w' (List.mem_cons_of_mem w hw')]

theorem literal_of_operands {n : Nat} {w : UInt32} (h : i.operands[n]? = some w) :
    literal i n = .ok w := by
  unfold literal
  rw [h]
  rfl

theorem evalExt_congr (hop : i.opcode = .extInst)
    (h : ∀ n ∈ i.lookups, ∀ w, i.operands[n]? = some w → m.SameAt m' ⟨w⟩) :
    m.evalExt b i = m'.evalExt b i := by
  unfold evalExt
  cases hlit : i.operands[1]? with
  | none =>
    unfold literal
    rw [hlit]
    rfl
  | some word =>
    rw [literal_of_operands hlit]
    simp only [bind, Except.bind]
    cases hext : ExtOpcode.ofNumber? word with
    | none => rfl
    | some op =>
      simp only [Inst.lookups, hop, hlit, Option.bind_some, hext] at h
      cases op with
      | round => simp only [floats_congr (h 2 (by decide))]
      | fClamp =>
        simp only [floats_congr (h 2 (by decide)), floats_congr (h 3 (by decide)),
          floats_congr (h 4 (by decide))]
      | packHalf2x16 => simp only [floats_congr (h 2 (by decide))]
      | unpackHalf2x16 => simp only [scalar_congr (h 2 (by decide))]

/-- A computation gives the same where the values that it looks up are the same. -/
theorem eval_congr_lookups (h : ∀ n ∈ i.lookups, ∀ w, i.operands[n]? = some w → m.SameAt m' ⟨w⟩) :
    m.eval b i = m'.eval b i := by
  unfold eval
  -- the positions are known once the opcode is
  split <;> rename_i hop
  case h_15 => exact evalExt_congr hop h
  all_goals simp only [Inst.lookups, hop] at h
  · rw [mapM_lookup_congr fun w hw => ?_]
    obtain ⟨n, hn, hw⟩ := List.getElem_of_mem hw
    exact h n (List.mem_range.2 hn) w (List.getElem?_eq_some_iff.2 ⟨hn, hw⟩)
  · rw [operand_congr (h 0 (by decide))]
  · rw [scalar_congr (h 0 (by decide)), operand_congr (h 1 (by decide))]
  · rw [operand_congr (h 0 (by decide)), operand_congr (h 1 (by decide))]
  · rw [operand_congr (h 0 (by decide)), scalar_congr (h 1 (by decide))]
  · rw [floats_congr (h 0 (by decide))]
  · rw [floats_congr (h 0 (by decide))]
  · rw [operand_congr (h 0 (by decide))]
  · rw [operand_congr (h 0 (by decide))]
  · rw [operand_congr (h 0 (by decide))]
  · rw [floats_congr (h 0 (by decide)), floats_congr (h 1 (by decide))]
  · rw [scalar_congr (h 0 (by decide)), scalar_congr (h 1 (by decide)),
      scalar_congr (h 2 (by decide)), scalar_congr (h 3 (by decide))]
  · rw [scalar_congr (h 0 (by decide)), scalar_congr (h 1 (by decide)), scalar_congr (h 2 (by decide))]
  · rw [scalar_congr (h 0 (by decide)), scalar_congr (h 1 (by decide)), scalar_congr (h 2 (by decide))]
  · rfl

/-- A computation gives the same where its operands are the same. -/
theorem eval_congr (h : ∀ w ∈ i.idWords, m.SameAt m' ⟨w⟩) : m.eval b i = m'.eval b i :=
  eval_congr_lookups fun _ hn w hw => h w (Inst.mem_idWords_of_lookups hn hw)

/-- The machines have values for an id that agree in what a function takes from them. -/
def AgreeAt {α : Type} (f : Value → α) (m m' : Machine) (id : Ref) : Prop :=
  (m.values[id.word]?).map f = (m'.values[id.word]?).map f

theorem sameAt_iff_agreeAt : m.SameAt m' id ↔ AgreeAt (fun v => v) m m' id := by
  unfold SameAt AgreeAt
  rw [Option.map_id', Option.map_id']

theorem SameAt.agreeAt {α : Type} (h : m.SameAt m' id) (f : Value → α) : AgreeAt f m m' id :=
  congrArg (Option.map f) h

theorem AgreeAt.define {α : Type} {f : Value → α} {v v' : Value} (h : AgreeAt f m m' id)
    (hv : i.result = some id → f v = f v') : AgreeAt f (m.define i v) (m'.define i v') id := by
  unfold AgreeAt
  cases hr : i.result with
  | none =>
    unfold Machine.define
    rw [hr]
    exact h
  | some r =>
    rw [values_define m v hr, values_define m' v' hr]
    split
    · rename_i heq
      exact congrArg some (hv (by rw [hr, heq]))
    · exact h

theorem SameAt.define {v v' : Value} (h : m.SameAt m' id) (hv : i.result = some id → v = v') :
    (m.define i v).SameAt (m'.define i v') id :=
  sameAt_iff_agreeAt.2 ((sameAt_iff_agreeAt.1 h).define hv)

/-- Taking one of the first four lanes gives the same where these lanes are the same. -/
theorem eval_of_front (hop : i.opcode = .compositeExtract) {w lane : UInt32}
    (hops : i.operands = [w, lane]) (hlane : lane.toNat < 4) (h : AgreeAt Value.front m m' ⟨w⟩) :
    m.eval b i = m'.eval b i := by
  have hbits {v v' : Value} (hv : v.front = v'.front) : v.bits[lane.toNat]? = v'.bits[lane.toNat]? := by
    have hfront (v : Value) : v.front[lane.toNat]? = v.bits[lane.toNat]? :=
      List.getElem?_take_of_lt hlane
    rw [← hfront, hv, hfront]
  have hliteral : literal i 1 = .ok lane := by
    unfold literal
    rw [hops]
    rfl
  have hoperand : (∃ stop, m.operand b i 0 = .error stop ∧ m'.operand b i 0 = .error stop) ∨
      ∃ v v', m.operand b i 0 = .ok v ∧ m'.operand b i 0 = .ok v' ∧ v.front = v'.front := by
    unfold operand Inst.operandRef? lookup value?
    rw [hops]
    simp only [List.getElem?_cons_zero, Option.map_some, expect, bind, Except.bind]
    unfold AgreeAt at h
    cases hv : m.values[w]? with
    | none =>
      rw [hv, Option.map_none, eq_comm, Option.map_eq_none_iff] at h
      rw [h]
      cases b.constantValue? ⟨w⟩ with
      | none => exact .inl ⟨_, rfl, rfl⟩
      | some v => exact .inr ⟨v, v, rfl, rfl, rfl⟩
    | some v =>
      rw [hv, Option.map_some, eq_comm, Option.map_eq_some_iff] at h
      obtain ⟨v', hv', hfront⟩ := h
      rw [hv']
      exact .inr ⟨v, v', rfl, rfl, hfront.symm⟩
  unfold eval
  rw [hop]
  rcases hoperand with ⟨stop, hm, hm'⟩ | ⟨v, v', hm, hm', hfront⟩
  · rw [hm, hm']
  · rw [hm, hm', hliteral]
    simp only [bind, Except.bind, hbits hfront]

end Machine

/-! ## Requests -/

namespace SampleCall

/-- The first gradient of a request. -/
def dx? (call : SampleCall) : Option (List UInt32) :=
  call.grad.map (·.1)

/-- The second gradient of a request. -/
def dy? (call : SampleCall) : Option (List UInt32) :=
  call.grad.map (·.2)

/-- The requests are the same, but for the second gradient if it is `free`. -/
structure Alike (free : Prop) (call call' : SampleCall) : Prop where
  image : call.image = call'.image
  opcode : call.opcode = call'.opcode
  coord : call.coord = call'.coord
  lod : call.lod = call'.lod
  dx : call.dx? = call'.dx?
  dy : ¬ free → call.dy? = call'.dy?

theorem Alike.refl (free : Prop) (call : SampleCall) : Alike free call call :=
  ⟨rfl, rfl, rfl, rfl, rfl, fun _ => rfl⟩

end SampleCall

namespace Machine

variable {b : Builder} {texels : Texels} {m m' : Machine} {i : Inst} {id : Ref}

theorem sampleCall_congr (h0 : m.operand b i 0 = m'.operand b i 0)
    (h1 : m.floats b i 1 = m'.floats b i 1) (h3 : m.floats b i 3 = m'.floats b i 3)
    (h4 : m.floats b i 4 = m'.floats b i 4) : m.sampleCall b i = m'.sampleCall b i := by
  unfold sampleCall
  rw [h0, h1, h3, h4]

/-- The request of a sample whose last two operands are gradients. -/
def gradientCall (m : Machine) (b : Builder) (i : Inst) : Except Stop SampleCall := do
  match ← m.operand b i 0 with
  | .image image =>
    let coord ← m.floats b i 1
    let dx ← m.floats b i 3
    let dy ← m.floats b i 4
    return { image, opcode := .imageSampleExplicitLod, coord, grad := some (dx, dy) }
  | _ => malformed i

theorem sampleCall_eq_gradientCall (hop : i.opcode = .imageSampleExplicitLod)
    (hmask : i.operands[2]? = some gradBit) : m.sampleCall b i = m.gradientCall b i := by
  have hliteral : literal i 2 = .ok gradBit := by
    unfold literal
    rw [hmask]
    rfl
  unfold sampleCall gradientCall
  rw [hop, hliteral]
  rfl

/-- A request with gradients has the second one. -/
theorem dy_of_gradientCall {call : SampleCall} (h : m.gradientCall b i = .ok call) :
    ∃ dy, m.floats b i 4 = .ok dy ∧ call.dy? = some dy := by
  obtain ⟨v, -, h⟩ := exists_of_bind h
  cases v with
  | lanes kind bits => cases h
  | image image =>
    obtain ⟨coord, -, h⟩ := exists_of_bind h
    obtain ⟨dx, -, h⟩ := exists_of_bind h
    obtain ⟨dy, hdy, h⟩ := exists_of_bind h
    obtain rfl := Except.ok.inj h
    exact ⟨dy, hdy, rfl⟩

/-- Requests whose operands are the same but for the second gradient are made or refused alike. -/
theorem gradientCall_alike (h0 : m.operand b i 0 = m'.operand b i 0)
    (h1 : m.floats b i 1 = m'.floats b i 1) (h3 : m.floats b i 3 = m'.floats b i 3)
    {dy dy' : List UInt32} (h4 : m.floats b i 4 = .ok dy) (h4' : m'.floats b i 4 = .ok dy')
    {free : Prop} (hfree : free) :
    (∃ stop, m.gradientCall b i = .error stop ∧ m'.gradientCall b i = .error stop) ∨
    ∃ call call', m.gradientCall b i = .ok call ∧ m'.gradientCall b i = .ok call' ∧
      call.Alike free call' := by
  unfold gradientCall
  rw [h0, h1, h3, h4, h4']
  cases m'.operand b i 0 with
  | error stop => exact .inl ⟨stop, rfl, rfl⟩
  | ok v =>
    cases v with
    | lanes kind bits => exact .inl ⟨_, rfl, rfl⟩
    | image image =>
      cases m'.floats b i 1 with
      | error stop => exact .inl ⟨stop, rfl, rfl⟩
      | ok coord =>
        cases m'.floats b i 3 with
        | error stop => exact .inl ⟨stop, rfl, rfl⟩
        | ok dx => exact .inr ⟨_, _, rfl, rfl, rfl, rfl, rfl, rfl, rfl, fun h => absurd hfree h⟩

/-! ## What steps change -/

/-- What an instruction that is not refused does. -/
inductive Effect (b : Builder) (texels : Texels) (m : Machine) (i : Inst) : Machine → Prop
  | pass (hop : i.opcode.isFrame = true) : Effect b texels m i m
  | load (hop : i.opcode = .load) {pointer : Ref} (hp : i.operandRef? 0 = some pointer) :
    Effect b texels m i (m.define i (m.read b pointer))
  | store (hop : i.opcode = .store) {pointer : Ref} {v : Value} (hp : i.operandRef? 0 = some pointer)
    (hv : m.operand b i 1 = .ok v) : Effect b texels m i (m.write pointer v)
  | sample (hop : i.opcode.isImageSample = true) {call : SampleCall}
    (hc : m.sampleCall b i = .ok call) : Effect b texels m i (m.answer texels i call)
  | compute (hop : i.opcode ≠ .store ∧ i.opcode.isImageSample = false) {v : Value}
    (hv : m.eval b i = .ok v) : Effect b texels m i (m.define i v)

theorem expect_eq_ok {α : Type} {part : Option α} {a : α} (h : expect i part = .ok a) :
    part = some a := by
  cases part with
  | none => cases h
  | some a' => rw [Except.ok.inj h]

theorem effect_of_step {m₁ : Machine} (h : m.step b texels i = .ok m₁) :
    Effect b texels m i m₁ := by
  unfold step at h
  split at h
  case h_5 hop =>
    obtain ⟨pointer, hp, h⟩ := exists_of_bind h
    obtain rfl := Except.ok.inj h
    exact .load hop (expect_eq_ok hp)
  case h_6 hop =>
    obtain ⟨pointer, hp, h⟩ := exists_of_bind h
    obtain ⟨v, hv, h⟩ := exists_of_bind h
    obtain rfl := Except.ok.inj h
    exact .store hop (expect_eq_ok hp) hv
  case h_10 hstore hi he hp =>
    obtain ⟨v, hv, h⟩ := exists_of_bind h
    obtain rfl := Except.ok.inj h
    refine .compute ⟨hstore, ?_⟩ hv
    cases hop : i.opcode <;> first | rfl | contradiction
  all_goals rename_i hop
  case h_7 | h_8 | h_9 =>
    obtain ⟨call, hc, h⟩ := exists_of_bind h
    obtain rfl := Except.ok.inj h
    exact .sample (by rw [hop]; rfl) hc
  all_goals
    obtain rfl := Except.ok.inj h
    exact .pass (by rw [hop]; rfl)

/-- A store changes the variable that it points to, and nothing else changes variables. -/
theorem contents?_step {m₁ : Machine} (hid : i.opcode = .store → i.operandRef? 0 ≠ some id)
    (h : m.step b texels i = .ok m₁) : m₁.contents? id = m.contents? id := by
  cases effect_of_step h with
  | pass => rfl
  | load => rw [contents?, memory_define, contents?]
  | sample =>
    unfold answer
    rw [contents?, memory_define, contents?]
  | compute => rw [contents?, memory_define, contents?]
  | @store hop pointer v hp hv =>
    have hne : pointer ≠ id := by
      rintro rfl
      exact hid hop hp
    exact (memory_write m pointer id v).trans (if_neg hne)

theorem contents?_steps {code : List Inst}
    (hid : ∀ i ∈ code, i.opcode = .store → i.operandRef? 0 ≠ some id) :
    (m.steps b texels code).1.contents? id = m.contents? id := by
  induction code generalizing m with
  | nil => rfl
  | cons i code ih =>
    unfold steps
    cases hs : m.step b texels i with
    | error stop => rfl
    | ok m₁ =>
      show (m₁.steps b texels code).1.contents? id = _
      rw [ih fun j hj => hid j (List.mem_cons_of_mem i hj),
        contents?_step (hid i (List.mem_cons_self ..)) hs]

/-- Samples add a request, and other instructions leave the requests alone. -/
theorem samples_step {m₁ : Machine} (h : m.step b texels i = .ok m₁) :
    (i.opcode.isImageSample = false ∧ m₁.samples = m.samples) ∨
    (i.opcode.isImageSample = true ∧ ∃ call, m.sampleCall b i = .ok call ∧
      m₁.samples = m.samples.push call) := by
  cases effect_of_step h with
  | pass hop =>
    refine .inl ⟨?_, rfl⟩
    cases h : i.opcode <;> first | rfl | (rw [h] at hop; cases hop)
  | load hop => exact .inl ⟨by rw [hop]; rfl, samples_define ..⟩
  | store hop => exact .inl ⟨by rw [hop]; rfl, rfl⟩
  | @sample hop call hc => exact .inr ⟨hop, call, hc, samples_define ..⟩
  | compute hop => exact .inl ⟨hop.2, samples_define ..⟩

/-! ## Runs, instruction by instruction -/

theorem steps_concat (m : Machine) (code : List Inst) (i : Inst) :
    m.steps b texels (code ++ [i]) = match m.steps b texels code with
      | (m', none) =>
        match m'.step b texels i with
        | .ok m'' => (m'', none)
        | .error stop => (m', some stop)
      | (m', some stop) => (m', some stop) := by
  induction code generalizing m with
  | nil => rfl
  | cons j code ih =>
    simp only [steps, List.cons_append]
    cases m.step b texels j with
    | error stop => rfl
    | ok m₁ => exact ih m₁

/-- A run that goes through has gone through every part. -/
theorem exists_of_steps_concat {code : List Inst} {m₁ : Machine}
    (h : m.steps b texels (code ++ [i]) = (m₁, none)) :
    ∃ m', m.steps b texels code = (m', none) ∧ m'.step b texels i = .ok m₁ := by
  rw [steps_concat] at h
  cases hm : m.steps b texels code with
  | mk m' stop =>
    rw [hm] at h
    cases stop with
    | some stop => cases h
    | none =>
      cases hs : m'.step b texels i with
      | error stop => simp [hs] at h
      | ok m₂ =>
        simp only [hs] at h
        obtain ⟨rfl, -⟩ := Prod.mk.inj h
        exact ⟨m', rfl, hs⟩

theorem exists_of_steps_append {code rest : List Inst} {m₁ : Machine}
    (h : m.steps b texels (code ++ rest) = (m₁, none)) : ∃ m', m.steps b texels code = (m', none) := by
  induction rest using List.reverseRecOn generalizing m₁ with
  | nil => exact ⟨m₁, by rwa [List.append_nil] at h⟩
  | append_singleton rest i ih =>
    rw [← List.append_assoc] at h
    obtain ⟨m', hm, -⟩ := exists_of_steps_concat h
    exact ih hm

end Machine

end TextureLift
