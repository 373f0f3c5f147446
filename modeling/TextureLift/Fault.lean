import TextureLift.Module.Inst
import TextureLift.Operand.Encoding

/-!
# Faults

A fault ends the whole computation: machine arithmetic left its range or a requirement of the code
generator was not met. Faults are not failures of the program being lifted; those are values and
lifting goes on after them.
-/

namespace TextureLift

/-- Why a computation stopped. -/
inductive Fault where
  /-- A sum, product or count does not fit its word. -/
  | overflow
  /-- A bit-field offset is not below the width of a word. -/
  | shiftRange
  /-- There are no ids left. -/
  | idsExhausted
  | coordNotFloat (coord : Ref)
  | notInteger (encoding : Encoding)
  deriving DecidableEq, Repr

namespace Fault

/-- The text of a requirement that was not met. Faults of machine arithmetic have none. -/
def message? : Fault → Option String
  | overflow | shiftRange | idsExhausted => none
  | coordNotFloat coord =>
    some ("coordinate " ++ coord.text ++ " is not float-typed after normalisation")
  | notInteger encoding => some (encoding.mnemonic ++ " is not an integer type")

end Fault

/-- The sum of two words, if it fits a word. -/
def checkedAdd (a b : UInt32) : Except Fault UInt32 :=
  if a.toNat + b.toNat < UInt32.size then .ok (a + b) else .error .overflow

/-- The product of two words, if it fits a word. -/
def checkedMul (a b : UInt32) : Except Fault UInt32 :=
  if a.toNat * b.toNat < UInt32.size then .ok (a * b) else .error .overflow

/-- The number after a byte, if it fits a byte. -/
def checkedSucc (a : UInt8) : Except Fault UInt8 :=
  if a.toNat + 1 < UInt8.size then .ok (a + 1) else .error .overflow

end TextureLift
