import TextureLift.Operand.Encoding
import TextureLift.Operand.Lane

/-!
# Register operands

An operand names the first component that it reads or writes, the encoding of its lanes and a
swizzle. `Operand.text` is its form in listings.
-/

namespace TextureLift

/-- Register bank. -/
inductive Bank where
  | temp
  | primAttr
  | secAttr
  | output
  | fpInternal
  | special
  | indexed1
  | indexed2
  | immediate
  deriving DecidableEq, Repr

namespace Bank

/-- Banks that are backed by storage; the others can be neither loaded nor stored. -/
def isAddressable : Bank → Bool
  | temp | primAttr | secAttr | output | fpInternal => true
  | special | indexed1 | indexed2 | immediate => false

/-- The letters that stand before an index in listings and messages. -/
def mnemonic : Bank → String
  | temp => "r"
  | primAttr => "pa"
  | secAttr => "sa"
  | output => "o"
  | fpInternal => "i"
  | special => "s"
  | indexed1 => "idx1."
  | indexed2 => "idx2."
  | immediate => "#"

end Bank

/-- A decoded register operand. -/
structure Operand where
  bank : Bank := .temp
  /-- Index of the first component. -/
  index : UInt32 := 0
  encoding : Encoding := .f32
  swizzle : Swizzle := .identity
  /-- Whether the extended banks were selected. -/
  extended : Bool := false
  deriving DecidableEq, Repr

namespace Operand

/-- Bank and index, then the channels of the lanes in the mask. An immediate is its number alone. -/
def text (op : Operand) (mask : LaneMask) : String :=
  let register := op.bank.mnemonic ++ op.index.toNat.repr
  if op.bank = .immediate || mask.isEmpty then register
  else register ++ "." ++ .ofList (mask.lanes.map fun lane => (op.swizzle.channel lane).letter)

end Operand

end TextureLift
