import TextureLift.Proofs.Machine.Step

/-!
# Runs of arbitrary bodies

Nothing is asked of the body of a module here: instructions may have any opcode, any result type and
any operands, and variables may hold anything. A run ends well or at an instruction that is refused,
with one exception: it faults at a bit field whose offset is not a position in a word.

    m.step b texels i = .error (.fault f)  ↔  f = .shiftRange ∧ m.Overshifts b i   (step_eq_fault_iff)

Slices of operands, lanes at fixed positions, differences and shifts of words have an outcome only
within their range. `Machine.evalStrict` computes with partial operations in these places. It agrees
with `Machine.eval` (`evalStrict_agrees`), so that the checks before each place are enough, and it is
only the offset of a bit field that takes a shift out of its range (`evalStrict_of_fieldOffset?`).
-/

namespace TextureLift

open Number

/-! ## Partial operations -/

/-- Why a computation with partial operations has no value. -/
inductive Trap where
  /-- The instruction is refused, or a check of its own faults. -/
  | stopped (stop : Stop)
  /-- A list has fewer elements than are to be left out of it. -/
  | slice (start length : Nat)
  | lane (index length : Nat)
  | difference (a b : UInt32)
  /-- A word is shifted by its width or more. -/
  | shift (amount : UInt32)
  deriving DecidableEq, Repr

namespace Trap

/-- A part of a computation that has its own checks. -/
def checked {α : Type} (x : Except Stop α) : Except Trap α :=
  x.mapError stopped

def sliceFrom (start : Nat) (words : List UInt32) : Except Trap (List UInt32) :=
  if start ≤ words.length then .ok (words.drop start) else .error (.slice start words.length)

def laneAt (lanes : List UInt32) (index : Nat) : Except Trap UInt32 :=
  match lanes[index]? with
  | some word => .ok word
  | none => .error (.lane index lanes.length)

def minus (a b : UInt32) : Except Trap UInt32 :=
  if b ≤ a then .ok (a - b) else .error (.difference a b)

/-- A shift by `amount`. -/
def shiftBy (amount shifted : UInt32) : Except Trap UInt32 :=
  if amount < 32 then .ok shifted else .error (.shift amount)

def shiftLeft (word amount : UInt32) : Except Trap UInt32 :=
  shiftBy amount (word <<< amount)

def shiftRight (word amount : UInt32) : Except Trap UInt32 :=
  shiftBy amount (word >>> amount)

/-- Shifts a two's complement number. -/
def shiftRightSigned (word amount : UInt32) : Except Trap UInt32 :=
  shiftBy amount (word.toInt32 >>> amount.toInt32).toUInt32

/-- The word whose low `count` bits are set. -/
def fieldMask (count : UInt32) : Except Trap UInt32 := do
  if 32 ≤ count then return 0xffffffff else minus (← shiftLeft 1 count) 1

/-- Copies bit `count - 1` of a number into all higher bits. -/
def extendSign (word count : UInt32) : Except Trap UInt32 := do
  if 0 < count ∧ count < 32 then
    let gap ← minus 32 count
    shiftRightSigned (← shiftLeft word gap) gap
  else return word

/-! ### Within the range -/

theorem shiftBy_of_lt {amount : UInt32} (h : amount < 32) (shifted : UInt32) :
    shiftBy amount shifted = .ok shifted :=
  if_pos h

theorem shiftBy_of_le {amount : UInt32} (h : 32 ≤ amount) (shifted : UInt32) :
    shiftBy amount shifted = .error (.shift amount) :=
  if_neg (UInt32.not_lt.2 h)

theorem one_le_shiftLeft {count : UInt32} (h : count < 32) : 1 ≤ (1 : UInt32) <<< count := by
  have h : count.toNat < 32 := h
  have hpow := Nat.pow_lt_pow_right Nat.one_lt_two h
  rw [UInt32.le_iff_toNat_le, UInt32.toNat_shiftLeft, Nat.mod_eq_of_lt h]
  simp only [UInt32.toNat_one, Nat.one_shiftLeft, Nat.mod_eq_of_lt hpow]
  exact Nat.one_le_two_pow

/-- A mask is formed without leaving a range. -/
theorem fieldMask_eq (count : UInt32) : fieldMask count = .ok (BitField.mask count) := by
  unfold fieldMask BitField.mask
  split
  · rfl
  · rename_i h
    have hlt : count < 32 := UInt32.not_le.1 h
    show (shiftBy count (1 <<< count) >>= fun w => minus w 1) = _
    rw [shiftBy_of_lt hlt]
    exact if_pos (one_le_shiftLeft hlt)

/-- Distances below 32 are not negative in two's complement. -/
theorem smod_of_lt {gap : UInt32} (h : gap < 32) : gap.toBitVec.smod 32 = gap.toBitVec % 32 := by
  have hmsb : gap.toBitVec.msb = false := by
    rw [BitVec.msb_eq_false_iff_two_mul_lt]
    have h : gap.toBitVec.toNat < 32 := h
    omega
  rw [BitVec.smod_eq, hmsb]
  rfl

/-- Two's complement numbers are shifted to the left like words. -/
theorem toInt32_shiftLeft {gap : UInt32} (h : gap < 32) (word : UInt32) :
    (word <<< gap).toInt32 = word.toInt32 <<< gap.toInt32 := by
  apply Int32.toBitVec_inj.1
  rw [Int32.toBitVec_shiftLeft, UInt32.toBitVec_toInt32, UInt32.toBitVec_toInt32,
    UInt32.toBitVec_toInt32, UInt32.toBitVec_shiftLeft, smod_of_lt h]

/-- A sign is extended without leaving a range. -/
theorem extendSign_eq (word count : UInt32) :
    extendSign word count = .ok (BitField.signExtend word count) := by
  unfold extendSign BitField.signExtend
  split
  · rename_i h
    have hle : count ≤ 32 := UInt32.le_of_lt h.2
    have hgap : 32 - count < 32 := by
      have hpos : 0 < count.toNat := h.1
      rw [UInt32.lt_iff_toNat_lt, UInt32.toNat_sub_of_le 32 count hle]
      exact Nat.sub_lt (by decide) hpos
    have hminus : minus 32 count = .ok (32 - count) := if_pos hle
    rw [hminus]
    show (shiftBy _ _ >>= fun w => shiftRightSigned w (32 - count)) = _
    rw [shiftBy_of_lt hgap]
    show shiftBy _ _ = _
    rw [shiftBy_of_lt hgap, toInt32_shiftLeft hgap]
  · rfl

/-! ### Agreement -/

/-- Both computations have the same value, or both refuse for the same reason. -/
inductive Agrees {α : Type} : Except Trap α → Except Stop α → Prop
  | value (a : α) : Agrees (.ok a) (.ok a)
  | refused (e : MachineError) : Agrees (.error (.stopped (.error e))) (.error (.error e))

namespace Agrees

variable {α β : Type}

theorem bind {x : Except Trap α} {y : Except Stop α} {f : α → Except Trap β} {g : α → Except Stop β}
    (h : Agrees x y) (hf : ∀ a, y = .ok a → Agrees (f a) (g a)) : Agrees (x >>= f) (y >>= g) := by
  cases h with
  | value a => exact hf a rfl
  | refused e => exact .refused e

/-- The first computation has a part that the second does without. -/
theorem bind_ok {x : Except Trap α} {a : α} {f : α → Except Trap β} {y : Except Stop β}
    (hx : x = .ok a) (h : Agrees (f a) y) : Agrees (x >>= f) y := by
  rw [hx]
  exact h

theorem eq_ok_iff {x : Except Trap α} {y : Except Stop α} (h : Agrees x y) {a : α} :
    x = .ok a ↔ y = .ok a := by
  cases h <;> simp

theorem eq_error_iff {x : Except Trap α} {y : Except Stop α} (h : Agrees x y) {trap : Trap} :
    x = .error trap ↔ ∃ e, trap = .stopped (.error e) ∧ y = .error (.error e) := by
  cases h with
  | value a => simp
  | refused e => simp [eq_comm]

theorem mapM {f : UInt32 → Except Trap β} {g : UInt32 → Except Stop β} (words : List UInt32)
    (h : ∀ w ∈ words, Agrees (f w) (g w)) : Agrees (words.mapM f) (words.mapM g) := by
  induction words with
  | nil => exact .value []
  | cons w words ih =>
    rw [List.mapM_cons, List.mapM_cons]
    exact (h w (List.mem_cons_self ..)).bind fun a _ =>
      (ih fun w' hw' => h w' (List.mem_cons_of_mem w hw')).bind fun as _ => .value (a :: as)

end Agrees

end Trap

/-! ## Computations without faults -/

/-- A computation that may be refused, but does not fault. -/
def Faultless {α : Type} (x : Except Stop α) : Prop :=
  ∀ f, x ≠ .error (.fault f)

namespace Faultless

variable {α β : Type}

theorem ok (a : α) : Faultless (.ok a) := by
  rintro f ⟨⟩

theorem refused (e : MachineError) : Faultless (.error (.error e) : Except Stop α) := by
  rintro f ⟨⟩

theorem bind {x : Except Stop α} {f : α → Except Stop β} (hx : Faultless x)
    (hf : ∀ a, Faultless (f a)) : Faultless (x >>= f) := by
  cases x with
  | ok a => exact hf a
  | error stop =>
    intro f h
    exact hx f (by rw [Except.error.inj h])

theorem mapM {f : UInt32 → Except Stop β} (words : List UInt32) (h : ∀ w, Faultless (f w)) :
    Faultless (words.mapM f) := by
  induction words with
  | nil => exact ok []
  | cons w words ih =>
    rw [List.mapM_cons]
    exact (h w).bind fun a => ih.bind fun as => ok (a :: as)

theorem agrees {x : Except Stop α} (h : Faultless x) : Trap.Agrees (Trap.checked x) x := by
  rcases x with (e | f) | a
  · exact .refused e
  · exact absurd rfl (h f)
  · exact .value a

theorem of_agrees {x : Except Trap α} {y : Except Stop α} (h : Trap.Agrees x y) : Faultless y := by
  cases h with
  | value a => exact ok a
  | refused e => exact refused e

end Faultless

namespace Machine

variable (m : Machine) (b : Builder) (i : Inst)

theorem faultless_expect {α : Type} (part : Option α) : Faultless (expect i part) := by
  cases part with
  | none => exact .refused _
  | some a => exact .ok a

theorem faultless_lookup (id : Ref) : Faultless (m.lookup b id) := by
  unfold lookup
  split
  · exact .ok _
  · exact .refused _

theorem faultless_operand (n : Nat) : Faultless (m.operand b i n) :=
  (faultless_expect i _).bind fun id => m.faultless_lookup b id

theorem faultless_floats (n : Nat) : Faultless (m.floats b i n) :=
  (m.faultless_operand b i n).bind fun _ => faultless_expect i _

theorem faultless_scalar (n : Nat) : Faultless (m.scalar b i n) :=
  (m.faultless_operand b i n).bind fun _ => faultless_expect i _

theorem faultless_ofResultType (bits : List UInt32) : Faultless (ofResultType b i bits) :=
  (faultless_expect i _).bind fun _ => .ok _

theorem faultless_sampleCall : Faultless (m.sampleCall b i) := by
  unfold sampleCall
  refine (m.faultless_operand b i 0).bind fun v => ?_
  cases v with
  | lanes kind bits => exact .refused _
  | image source =>
    refine (m.faultless_floats b i 1).bind fun coord => ?_
    dsimp only
    split
    · refine (faultless_expect i _).bind fun mask => ?_
      split
      · exact (m.faultless_floats b i 3).bind fun _ => .ok _
      · split
        · exact (m.faultless_floats b i 3).bind fun _ =>
            (m.faultless_floats b i 4).bind fun _ => .ok _
        · exact .ok _
    · exact .ok _

theorem faultless_evalExt : Faultless (m.evalExt b i) := by
  unfold evalExt
  refine (faultless_expect i _).bind fun word => ?_
  cases ExtOpcode.ofNumber? word with
  | none => exact .refused _
  | some op =>
    cases op with
    | round => exact (m.faultless_floats b i 2).bind fun _ => .ok _
    | fClamp =>
      exact (m.faultless_floats b i 2).bind fun _ => (m.faultless_floats b i 3).bind fun _ =>
        (m.faultless_floats b i 4).bind fun _ => .ok _
    | packHalf2x16 =>
      refine (m.faultless_floats b i 2).bind fun lanes => ?_
      split
      · exact .ok _
      · exact .refused _
    | unpackHalf2x16 => exact (m.faultless_scalar b i 2).bind fun _ => .ok _

/-! ## Bit fields -/

/-- The first lane of an operand that is there. -/
def firstLane? (n : Nat) : Option UInt32 := do
  (← m.value? b (← i.operandRef? n)).bits.head?

/-- The offset of a bit field, if all operands of the instruction have a lane. -/
def fieldOffset? : Option UInt32 := do
  match i.opcode with
  | .bitFieldInsert =>
    let _ ← m.firstLane? b i 0
    let _ ← m.firstLane? b i 1
    let offset ← m.firstLane? b i 2
    let _ ← m.firstLane? b i 3
    return offset
  | .bitFieldUExtract | .bitFieldSExtract =>
    let _ ← m.firstLane? b i 0
    let offset ← m.firstLane? b i 1
    let _ ← m.firstLane? b i 2
    return offset
  | _ => none

/-- The instruction is about a bit field that starts outside the word. -/
def Overshifts : Prop :=
  ∃ offset, m.fieldOffset? b i = some offset ∧ 32 ≤ offset

variable {m b i}

theorem scalar_eq_ok_iff {n : Nat} {w : UInt32} :
    m.scalar b i n = .ok w ↔ m.firstLane? b i n = some w := by
  unfold scalar operand firstLane? lookup
  cases i.operandRef? n with
  | none => simp [expect, malformed, bind, Except.bind]
  | some id =>
    cases hv : m.value? b id with
    | none => simp [expect, hv, bind, Except.bind]
    | some v => cases hl : v.bits.head? <;> simp [expect, malformed, hv, hl, bind, Except.bind]

theorem checkOffset_of_le {offset : UInt32} (h : 32 ≤ offset) :
    checkOffset offset = .error (.fault .shiftRange) :=
  if_neg (UInt32.not_lt.2 h)

theorem checkOffset_of_lt {offset : UInt32} (h : offset < 32) : checkOffset offset = .ok () :=
  if_pos h

/-! ## The strict evaluator -/

open Trap

variable (m b i) in
/-- `Machine.evalExt` with partial operations. -/
def evalExtStrict : Except Trap Value := do
  match ExtOpcode.ofNumber? (← checked (literal i 1)) with
  | some .packHalf2x16 =>
    let lanes ← checked (m.floats b i 2)
    if lanes.length ≠ 2 then checked (malformed i)
    else
      let lo ← laneAt lanes 0
      let hi ← laneAt lanes 1
      return .lanes .u32 [Half.pack (Half.ofSingle lo) (Half.ofSingle hi)]
  | _ => checked (m.evalExt b i)

variable (m b i) in
/-- `Machine.eval` with partial operations. -/
def evalStrict : Except Trap Value := do
  match i.opcode with
  | .vectorShuffle =>
    let first := (← checked (m.operand b i 0)).bits
    let second := (← checked (m.operand b i 1)).bits
    let lanes ← (← sliceFrom 2 i.operands).mapM fun lane =>
      checked (expect i (first ++ second)[lane.toNat]?)
    checked (ofResultType b i lanes)
  | .bitFieldInsert =>
    let base ← checked (m.scalar b i 0)
    let value ← checked (m.scalar b i 1)
    let offset ← checked (m.scalar b i 2)
    let count ← checked (m.scalar b i 3)
    let field ← shiftLeft (← fieldMask count) offset
    let placed ← shiftLeft value offset
    checked (ofResultType b i [(base &&& ~~~field) ||| (placed &&& field)])
  | .bitFieldUExtract =>
    let base ← checked (m.scalar b i 0)
    let offset ← checked (m.scalar b i 1)
    let count ← checked (m.scalar b i 2)
    let shifted ← shiftRight base offset
    checked (ofResultType b i [shifted &&& (← fieldMask count)])
  | .bitFieldSExtract =>
    let base ← checked (m.scalar b i 0)
    let offset ← checked (m.scalar b i 1)
    let count ← checked (m.scalar b i 2)
    let shifted ← shiftRight base offset
    checked (ofResultType b i [← extendSign (shifted &&& (← fieldMask count)) count])
  | .extInst => m.evalExtStrict b i
  | _ => checked (m.eval b i)

/-- The operands before a slice are there once they have been read. -/
theorem sliceFrom_two (h : ∃ v, m.operand b i 1 = .ok v) :
    sliceFrom 2 i.operands = .ok (i.operands.drop 2) := by
  obtain ⟨v, hv⟩ := h
  refine if_pos ?_
  by_contra hshort
  have hnone : i.operands[1]? = none := List.getElem?_eq_none (by omega)
  simp [operand, Inst.operandRef?, hnone, expect, malformed, bind, Except.bind] at hv

theorem evalExtStrict_agrees : Agrees (m.evalExtStrict b i) (m.evalExt b i) := by
  have hwhole := (m.faultless_evalExt b i).agrees
  unfold evalExtStrict
  unfold evalExt at hwhole ⊢
  refine (faultless_expect i _).agrees.bind fun word hword => ?_
  have hword : literal i 1 = .ok word := hword
  rw [hword] at hwhole ⊢
  cases hop : ExtOpcode.ofNumber? word with
  | none => simpa [hop, bind, Except.bind] using hwhole
  | some op =>
    cases op with
    | round | fClamp | unpackHalf2x16 => simpa [hop, bind, Except.bind] using hwhole
    | packHalf2x16 =>
      refine (m.faultless_floats b i 2).agrees.bind fun lanes _ => ?_
      -- the length is checked before the two lanes are taken
      rcases lanes with _ | ⟨lo, _ | ⟨hi, _ | ⟨more, rest⟩⟩⟩
      · exact .refused _
      · exact .refused _
      · exact .value _
      · exact .refused _

/-- Evaluators that read a word, an offset and a count agree if they do so for offsets in the word. -/
theorem extract_agrees {f : UInt32 → UInt32 → UInt32 → Except Trap Value}
    {g : UInt32 → UInt32 → UInt32 → Except Stop Value}
    (hlt : ∀ base offset count, m.firstLane? b i 0 = some base → m.firstLane? b i 1 = some offset →
      m.firstLane? b i 2 = some count → offset < 32)
    (h : ∀ base offset count, offset < 32 → Agrees (f base offset count) (g base offset count)) :
    Agrees (do f (← checked (m.scalar b i 0)) (← checked (m.scalar b i 1)) (← checked (m.scalar b i 2)))
      (do g (← m.scalar b i 0) (← m.scalar b i 1) (← m.scalar b i 2)) := by
  refine (m.faultless_scalar b i 0).agrees.bind fun base h0 => ?_
  refine (m.faultless_scalar b i 1).agrees.bind fun offset h1 => ?_
  refine (m.faultless_scalar b i 2).agrees.bind fun count h2 => ?_
  rw [scalar_eq_ok_iff] at h0 h1 h2
  exact h base offset count (hlt base offset count h0 h1 h2)

/-- Both evaluators agree on an instruction that is not about a field outside the word. -/
theorem evalStrict_agrees (h : ∀ offset, m.fieldOffset? b i = some offset → offset < 32) :
    Agrees (m.evalStrict b i) (m.eval b i) := by
  have hscalar (n : Nat) := (m.faultless_scalar b i n).agrees
  unfold evalStrict
  split
  case h_1 hop =>
    unfold eval
    rw [hop]
    refine (m.faultless_operand b i 0).agrees.bind fun first _ => ?_
    refine (m.faultless_operand b i 1).agrees.bind fun second hsecond => ?_
    refine .bind_ok (sliceFrom_two ⟨second, hsecond⟩) ?_
    refine (Agrees.mapM _ fun w _ => (faultless_expect i _).agrees).bind fun lanes _ => ?_
    exact (faultless_ofResultType b i lanes).agrees
  case h_2 hop =>
    unfold eval
    rw [hop]
    refine (hscalar 0).bind fun base h0 => ?_
    refine (hscalar 1).bind fun value h1 => ?_
    refine (hscalar 2).bind fun offset h2 => ?_
    refine (hscalar 3).bind fun count h3 => ?_
    rw [scalar_eq_ok_iff] at h0 h1 h2 h3
    have hlt := h offset (by simp [fieldOffset?, hop, h0, h1, h2, h3])
    refine .bind_ok (fieldMask_eq count) ?_
    refine .bind_ok (shiftBy_of_lt hlt _) (.bind_ok (shiftBy_of_lt hlt _) ?_)
    rw [checkOffset_of_lt hlt]
    exact (faultless_ofResultType b i _).agrees
  case h_3 hop =>
    unfold eval
    rw [hop]
    refine extract_agrees (fun base offset count h0 h1 h2 => h offset ?_) fun base offset count hlt => ?_
    · simp [fieldOffset?, hop, h0, h1, h2]
    refine .bind_ok (shiftBy_of_lt hlt _) (.bind_ok (fieldMask_eq count) ?_)
    rw [checkOffset_of_lt hlt]
    exact (faultless_ofResultType b i _).agrees
  case h_4 hop =>
    unfold eval
    rw [hop]
    refine extract_agrees (fun base offset count h0 h1 h2 => h offset ?_) fun base offset count hlt => ?_
    · simp [fieldOffset?, hop, h0, h1, h2]
    refine .bind_ok (shiftBy_of_lt hlt _) (.bind_ok (fieldMask_eq count) ?_)
    refine .bind_ok (extendSign_eq _ count) ?_
    rw [checkOffset_of_lt hlt]
    exact (faultless_ofResultType b i _).agrees
  case h_5 hop =>
    unfold eval
    rw [hop]
    exact evalExtStrict_agrees
  case h_6 =>
    refine Faultless.agrees ?_
    unfold eval
    split <;> try contradiction
    · exact (Faultless.mapM _ fun _ => m.faultless_lookup b _).bind fun _ =>
        faultless_ofResultType b i _
    · exact (m.faultless_operand b i 0).bind fun _ => (faultless_expect i _).bind fun _ =>
        (faultless_expect i _).bind fun _ => faultless_ofResultType b i _
    · refine (m.faultless_scalar b i 0).bind fun _ => (m.faultless_operand b i 1).bind fun _ =>
        (faultless_expect i _).bind fun _ => ?_
      split
      · exact faultless_ofResultType b i _
      · exact .refused _
    · exact (m.faultless_operand b i 0).bind fun _ => (m.faultless_scalar b i 1).bind fun _ =>
        (faultless_expect i _).bind fun _ => faultless_ofResultType b i _
    · exact (m.faultless_floats b i 0).bind fun _ => .ok _
    · exact (m.faultless_floats b i 0).bind fun _ => .ok _
    · exact (m.faultless_operand b i 0).bind fun _ => .ok _
    · exact (m.faultless_operand b i 0).bind fun _ => .ok _
    · exact (m.faultless_operand b i 0).bind fun _ => faultless_ofResultType b i _
    · refine (m.faultless_floats b i 0).bind fun _ => (m.faultless_floats b i 1).bind fun _ => ?_
      split
      · exact .ok _
      · exact .refused _
    · exact .refused _

/-- A field outside the word takes a shift out of its range. -/
theorem evalStrict_of_fieldOffset? {offset : UInt32} (h : m.fieldOffset? b i = some offset)
    (hle : 32 ≤ offset) : m.evalStrict b i = .error (.shift offset) ∧
      m.eval b i = .error (.fault .shiftRange) := by
  unfold fieldOffset? at h
  split at h <;> rename_i hop
  case h_1 =>
    obtain ⟨base, h0, h⟩ := Option.bind_eq_some_iff.1 h
    obtain ⟨value, h1, h⟩ := Option.bind_eq_some_iff.1 h
    obtain ⟨_, h2, h⟩ := Option.bind_eq_some_iff.1 h
    obtain ⟨count, h3, h⟩ := Option.bind_eq_some_iff.1 h
    obtain rfl := Option.some.inj h
    unfold evalStrict eval
    rw [hop]
    simp only [scalar_eq_ok_iff.2 h0, scalar_eq_ok_iff.2 h1, scalar_eq_ok_iff.2 h2,
      scalar_eq_ok_iff.2 h3, checked, Except.mapError, bind, Except.bind, fieldMask_eq, shiftLeft,
      shiftBy_of_le hle, checkOffset_of_le hle, and_self]
  case h_4 => cases h
  all_goals
    obtain ⟨base, h0, h⟩ := Option.bind_eq_some_iff.1 h
    obtain ⟨_, h1, h⟩ := Option.bind_eq_some_iff.1 h
    obtain ⟨count, h2, h⟩ := Option.bind_eq_some_iff.1 h
    obtain rfl := Option.some.inj h
    unfold evalStrict eval
    rw [hop]
    simp only [scalar_eq_ok_iff.2 h0, scalar_eq_ok_iff.2 h1, scalar_eq_ok_iff.2 h2, checked,
      Except.mapError, bind, Except.bind, shiftRight, shiftBy_of_le hle, checkOffset_of_le hle,
      and_self]

theorem lt_of_not_overshifts (h : ¬ m.Overshifts b i) :
    ∀ offset, m.fieldOffset? b i = some offset → offset < 32 :=
  fun offset ho => UInt32.not_le.1 fun hle => h ⟨offset, ho, hle⟩

/-- The only traps are refusals and shifts by the offset of a field outside the word. -/
theorem evalStrict_eq_error_iff {trap : Trap} : m.evalStrict b i = .error trap ↔
    (∃ e, trap = .stopped (.error e) ∧ m.eval b i = .error (.error e)) ∨
    ∃ offset, trap = .shift offset ∧ m.fieldOffset? b i = some offset ∧ 32 ≤ offset := by
  by_cases h : m.Overshifts b i
  · obtain ⟨offset, ho, hle⟩ := h
    obtain ⟨hstrict, heval⟩ := evalStrict_of_fieldOffset? ho hle
    simp [hstrict, heval, ho, hle, eq_comm]
  · rw [(evalStrict_agrees (lt_of_not_overshifts h)).eq_error_iff, or_iff_left]
    rintro ⟨offset, -, ho, hle⟩
    exact h ⟨offset, ho, hle⟩

theorem evalStrict_eq_ok_iff {v : Value} : m.evalStrict b i = .ok v ↔ m.eval b i = .ok v := by
  by_cases h : m.Overshifts b i
  · obtain ⟨offset, ho, hle⟩ := h
    obtain ⟨hstrict, heval⟩ := evalStrict_of_fieldOffset? ho hle
    simp [hstrict, heval]
  · exact (evalStrict_agrees (lt_of_not_overshifts h)).eq_ok_iff

/-! ## Steps -/

variable {texels : Texels}

/-- A step faults only in what it computes. -/
theorem faultless_step (h : Faultless (m.eval b i)) : Faultless (m.step b texels i) := by
  unfold step
  split
  case h_5 => exact (faultless_expect i _).bind fun _ => .ok _
  case h_6 =>
    exact (faultless_expect i _).bind fun _ => (m.faultless_operand b i 1).bind fun _ => .ok _
  case h_7 | h_8 | h_9 => exact (m.faultless_sampleCall b i).bind fun _ => .ok _
  case h_10 => exact h.bind fun _ => .ok _
  all_goals exact .ok _

theorem Overshifts.isPure (h : m.Overshifts b i) : i.opcode.isPure = true := by
  obtain ⟨offset, ho, -⟩ := h
  unfold fieldOffset? at ho
  split at ho <;> rename_i hop
  case h_4 => cases ho
  all_goals
    rw [hop]
    rfl

theorem step_of_overshifts (h : m.Overshifts b i) :
    m.step b texels i = .error (.fault .shiftRange) := by
  rw [step_of_isPure h.isPure]
  obtain ⟨offset, ho, hle⟩ := h
  rw [(evalStrict_of_fieldOffset? ho hle).2]
  rfl

theorem step_eq_fault_iff {f : Fault} :
    m.step b texels i = .error (.fault f) ↔ f = .shiftRange ∧ m.Overshifts b i := by
  by_cases h : m.Overshifts b i
  · simp [step_of_overshifts h, h, eq_comm]
  · have heval := Faultless.of_agrees (evalStrict_agrees (lt_of_not_overshifts h))
    simp [faultless_step heval f, h]

end Machine

/-- The module with the first `n` instructions of its body. -/
def Builder.upTo (n : Nat) (b : Builder) : Builder :=
  { b with body := b.body.take n }

namespace Machine

variable {m m' : Machine} {b : Builder} {texels : Texels}

theorem steps_upTo (n : Nat) (m : Machine) (code : List Inst) :
    m.steps (b.upTo n) texels code = m.steps b texels code := by
  induction code generalizing m with
  | nil => rfl
  | cons i code ih =>
    have hstep : m.step (b.upTo n) texels i = m.step b texels i := rfl
    unfold steps
    rw [hstep]
    cases m.step b texels i with
    | error stop => rfl
    | ok m₁ => exact ih m₁

/-- A sequence stops at an instruction after others that went through. -/
theorem steps_eq_stop_iff {code : List Inst} {stop : Stop} :
    m.steps b texels code = (m', some stop) ↔
    ∃ n i, code[n]? = some i ∧ m.steps b texels (code.take n) = (m', none) ∧
      m'.step b texels i = .error stop := by
  induction code generalizing m with
  | nil => simp [steps]
  | cons i code ih =>
    cases hstep : m.step b texels i with
    | error stop₀ =>
      constructor
      · intro h
        simp only [steps, hstep, Prod.mk.injEq, Option.some.injEq] at h
        obtain ⟨rfl, rfl⟩ := h
        exact ⟨0, i, rfl, rfl, hstep⟩
      · rintro ⟨n, j, hj, hn, hstop⟩
        cases n with
        | zero =>
          simp only [List.getElem?_cons_zero, Option.some.injEq] at hj
          simp only [List.take_zero, steps, Prod.mk.injEq, and_true] at hn
          subst hj hn
          rw [hstep] at hstop
          simp only [steps, hstep, Except.error.inj hstop]
        | succ n => simp [steps, hstep] at hn
    | ok m₁ =>
      have hrest : m.steps b texels (i :: code) = m₁.steps b texels code := by
        simp only [steps, hstep]
      rw [hrest, ih]
      constructor
      · rintro ⟨n, j, hj, hn, hstop⟩
        exact ⟨n + 1, j, hj, by simpa [steps, hstep] using hn, hstop⟩
      · rintro ⟨n, j, hj, hn, hstop⟩
        cases n with
        | zero =>
          simp only [List.getElem?_cons_zero, Option.some.injEq] at hj
          simp only [List.take_zero, steps, Prod.mk.injEq, and_true] at hn
          subst hj hn
          rw [hstep] at hstop
          cases hstop
        | succ n => exact ⟨n, j, hj, by simpa [steps, hstep] using hn, hstop⟩

theorem run_eq_stop_iff {stop : Stop} : m.run b texels = (m', some stop) ↔
    ∃ n i, b.body[n]? = some i ∧ m.run (b.upTo n) texels = (m', none) ∧
      m'.step b texels i = .error stop := by
  have htake (n : Nat) : (b.upTo n).body.toList = b.body.toList.take n := by
    simp [Builder.upTo]
  unfold run
  simp only [steps_eq_stop_iff, htake, steps_upTo, Array.getElem?_toList]

/-- A run of any body ends at its end or at the first instruction that does not go through, and then
the machine is as the instructions before that one left it. Such an instruction is refused; a fault
is the exception, and its cause is a bit field outside the word. Slices, lanes, differences and shifts
of an evaluation stay in their ranges, except for the shift by the offset of such a field. -/
theorem run_robust (b : Builder) (texels : Texels) (m : Machine) :
    (∀ m' stop, m.run b texels = (m', some stop) ↔
      ∃ n i, b.body[n]? = some i ∧ m.run (b.upTo n) texels = (m', none) ∧
        m'.step b texels i = .error stop) ∧
    (∀ m' f, m.run b texels = (m', some (.fault f)) ↔
      f = .shiftRange ∧ ∃ n i, b.body[n]? = some i ∧ m.run (b.upTo n) texels = (m', none) ∧
        m'.Overshifts b i) ∧
    ∀ (m' : Machine) (i : Inst),
      (∀ v, m'.evalStrict b i = .ok v ↔ m'.eval b i = .ok v) ∧
      ∀ trap, m'.evalStrict b i = .error trap ↔
        (∃ e, trap = .stopped (.error e) ∧ m'.eval b i = .error (.error e)) ∨
        ∃ offset, trap = .shift offset ∧ m'.fieldOffset? b i = some offset ∧ 32 ≤ offset := by
  refine ⟨fun m' stop => run_eq_stop_iff, fun m' f => ?_, fun m' i =>
    ⟨fun v => evalStrict_eq_ok_iff, fun trap => evalStrict_eq_error_iff⟩⟩
  rw [run_eq_stop_iff]
  simp only [step_eq_fault_iff]
  constructor
  · rintro ⟨n, i, hi, hrun, rfl, hover⟩
    exact ⟨rfl, n, i, hi, hrun, hover⟩
  · rintro ⟨rfl, n, i, hi, hrun, hover⟩
    exact ⟨n, i, hi, hrun, rfl, hover⟩

/-- Stores a value and then takes a field at position 32 of it. -/
def strayField : Builder :=
  { body := #[⟨.store, none, none, [3, 1]⟩, ⟨.bitFieldUExtract, none, some ⟨4⟩, [1, 2, 1]⟩] }

/-- What the two instructions are about: a word and a position. -/
def strayFieldValues : Machine :=
  { values := ((∅ : WordMap Value).insert 1 (.lanes .u32 [7])).insert 2 (.lanes .u32 [32]) }

theorem run_robust_strayField :
    let m' := (strayFieldValues.run strayField fun _ _ => ⟨0, 0, 0, 0⟩).1
    m'.contents? ⟨3⟩ = some (.lanes .u32 [7]) ∧
    ∃ n i, strayField.body[n]? = some i ∧
      strayFieldValues.run (strayField.upTo n) (fun _ _ => ⟨0, 0, 0, 0⟩) = (m', none) ∧
      m'.Overshifts strayField i := by
  intro m'
  have hstop : (strayFieldValues.run strayField fun _ _ => ⟨0, 0, 0, 0⟩).2 =
      some (.fault .shiftRange) := by decide +kernel
  have hrun : strayFieldValues.run strayField (fun _ _ => ⟨0, 0, 0, 0⟩) =
      (m', some (.fault .shiftRange)) := by rw [← hstop]
  exact ⟨by decide +kernel, ((run_robust ..).2.1 m' .shiftRange |>.1 hrun).2⟩

end Machine

end TextureLift
