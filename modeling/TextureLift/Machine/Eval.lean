import TextureLift.Machine.Basic
import TextureLift.Number.BitField
import TextureLift.Number.Half

/-!
# Values of instructions

`Machine.eval` gives the value of an instruction that depends on its operands alone. It reads the
operands from left to right and stops at the first that is not there or not of the right form.
-/

namespace TextureLift.Machine

open Number

variable (m : Machine) (b : Builder) (i : Inst)

/-! ## Operands -/

def malformed {α : Type} : Except Stop α :=
  .error (.error (.malformed i.opcode))

/-- A part of the instruction that has to be there. -/
def expect {α : Type} (part : Option α) : Except Stop α :=
  match part with
  | some a => .ok a
  | none => malformed i

/-- The operand word at a position. -/
def literal (position : Nat) : Except Stop UInt32 :=
  expect i i.operands[position]?

/-- The value of an id. -/
def lookup (id : Ref) : Except Stop Value :=
  match m.value? b id with
  | some value => .ok value
  | none => .error (.error (.missingValue id))

/-- The value of the operand at a position. -/
def operand (position : Nat) : Except Stop Value := do
  m.lookup b (← expect i (i.operandRef? position))

/-- The lanes of a floating-point operand. -/
def floats (position : Nat) : Except Stop (List UInt32) := do
  expect i (← m.operand b i position).floats?

/-- The first lane of an operand. -/
def scalar (position : Nat) : Except Stop UInt32 := do
  expect i (← m.operand b i position).bits.head?

/-- The lanes as a value of the result type. -/
def ofResultType (bits : List UInt32) : Except Stop Value := do
  let kind ← expect i (i.resultType.bind b.scalarKind?)
  return .lanes kind bits

/-- A bit-field offset has to lie in the word. -/
def checkOffset (offset : UInt32) : Except Stop Unit :=
  if offset < 32 then .ok () else .error (.fault .shiftRange)

/-! ## Extended instructions -/

/-- The bound for lane `n` of a clamp: its own one if there are that many, else the first. -/
def boundAt (bounds : List UInt32) (n : Nat) (default : UInt32) : UInt32 :=
  (bounds[n]?.or bounds.head?).getD default

/-- The value of an extended instruction. -/
def evalExt : Except Stop Value := do
  match ExtOpcode.ofNumber? (← literal i 1) with
  | some .round =>
    return .lanes .f32 ((← m.floats b i 2).map Single.roundAway)
  | some .fClamp =>
    let xs ← m.floats b i 2
    let lo ← m.floats b i 3
    let hi ← m.floats b i 4
    return .lanes .f32 <| xs.mapIdx fun n x =>
      Single.clamp x (boundAt lo n Single.lowest) (boundAt hi n Single.highest)
  | some .packHalf2x16 =>
    match ← m.floats b i 2 with
    | [lo, hi] => return .lanes .u32 [Half.pack (Half.ofSingle lo) (Half.ofSingle hi)]
    | _ => malformed i
  | some .unpackHalf2x16 =>
    let word ← m.scalar b i 2
    return .lanes .f32 [Half.toSingle (Half.low word), Half.toSingle (Half.high word)]
  | none => .error (.error (.unsupported i.opcode))

/-! ## Instructions -/

/-- The value of an instruction that neither touches memory nor samples an image. -/
def eval : Except Stop Value := do
  match i.opcode with
  | .compositeConstruct =>
    let parts ← i.operands.mapM fun word => m.lookup b ⟨word⟩
    ofResultType b i (parts.flatMap Value.bits)
  | .compositeExtract =>
    let bits := (← m.operand b i 0).bits
    let index ← literal i 1
    ofResultType b i [← expect i bits[index.toNat]?]
  | .compositeInsert =>
    let object ← m.scalar b i 0
    let bits := (← m.operand b i 1).bits
    let index ← literal i 2
    if index.toNat < bits.length then ofResultType b i (bits.set index.toNat object)
    else malformed i
  | .vectorShuffle =>
    let first := (← m.operand b i 0).bits
    let second := (← m.operand b i 1).bits
    let lanes ← (i.operands.drop 2).mapM fun lane => expect i (first ++ second)[lane.toNat]?
    ofResultType b i lanes
  | .vectorExtractDynamic =>
    let bits := (← m.operand b i 0).bits
    let index ← m.scalar b i 1
    ofResultType b i [← expect i bits[index.toNat]?]
  | .convertFToU => return .lanes .u32 ((← m.floats b i 0).map Single.toUnsigned)
  | .convertFToS => return .lanes .i32 ((← m.floats b i 0).map Single.toSigned)
  | .convertUToF => return .lanes .f32 ((← m.operand b i 0).bits.map Single.ofUnsigned)
  | .convertSToF => return .lanes .f32 ((← m.operand b i 0).bits.map Single.ofSigned)
  | .bitcast => ofResultType b i (← m.operand b i 0).bits
  | .fMul =>
    let xs ← m.floats b i 0
    let ys ← m.floats b i 1
    if xs.length = ys.length then return .lanes .f32 (List.zipWith Single.mul xs ys)
    else malformed i
  | .bitFieldInsert =>
    let base ← m.scalar b i 0
    let value ← m.scalar b i 1
    let offset ← m.scalar b i 2
    let count ← m.scalar b i 3
    checkOffset offset
    ofResultType b i [BitField.insert base value offset count]
  | .bitFieldUExtract =>
    let base ← m.scalar b i 0
    let offset ← m.scalar b i 1
    let count ← m.scalar b i 2
    checkOffset offset
    ofResultType b i [BitField.extract base offset count]
  | .bitFieldSExtract =>
    let base ← m.scalar b i 0
    let offset ← m.scalar b i 1
    let count ← m.scalar b i 2
    checkOffset offset
    ofResultType b i [BitField.extractSigned base offset count]
  | .extInst => m.evalExt b i
  | opcode => .error (.error (.unsupported opcode))

end TextureLift.Machine
