import TextureLift.Instruction.Sample
import TextureLift.Operand.Basic

/-!
# Operands of the sample instruction

The bank of an operand follows from a selector and the extension flag of its source. Indices count
pairs of components, except in banks that have no components to pair.
-/

namespace TextureLift

namespace Bank

/-- Bank of the coordinate. -/
def ofCoordSelector (extended : Bool) (selector : UInt8) : Bank :=
  match extended, (selector &&& 1).toNat with
  | false, 0 => temp
  | false, _ => primAttr
  | true, 0 => output
  | true, _ => secAttr

/-- Bank of the sampler and of the level-of-detail operand. -/
def ofSelector (extended : Bool) (selector : UInt8) : Bank :=
  match extended, (selector &&& 3).toNat with
  | false, 0 => temp
  | false, 1 => output
  | false, 2 => primAttr
  | false, _ => secAttr
  | true, 0 => fpInternal
  | true, 1 => special
  | true, 2 => indexed1
  | true, _ => immediate

/-- The component index of a pair index. -/
def pairIndex (bank : Bank) (index : UInt32) : UInt32 :=
  match bank with
  | immediate | special => index
  | _ => index <<< 1

end Bank

namespace Operand

/-- The operand at an index field of a bank, which counts pairs if `paired` is set. -/
def ofField (bank : Bank) (index : UInt8) (extended paired : Bool) : Operand where
  bank
  index := if paired then bank.pairIndex index.toUInt32 else index.toUInt32
  extended

/-- Source 0: the coordinate. -/
def ofCoordFields (index selector : UInt8) (extended paired : Bool) : Operand :=
  ofField (.ofCoordSelector extended selector) index extended paired

/-- Sources 1 and 2: the sampler and the level-of-detail operand. -/
def ofFields (index selector : UInt8) (extended paired : Bool) : Operand :=
  ofField (.ofSelector extended selector) index extended paired

end Operand

namespace Sample

/-- The operand that holds the coordinate. -/
def coordOperand (s : Sample) : Operand :=
  { Operand.ofCoordFields s.coordIndex s.coordBank s.coordExtended true with
    encoding := .ofCoordinateSelector s.coordEncoding }

/-- The operand whose index names the sampler. -/
def samplerOperand (s : Sample) : Operand :=
  .ofFields s.samplerIndex s.samplerBank s.samplerExtended true

/-- The operand that holds bias or gradients, encoded like the coordinate. -/
def lodOperand (s : Sample) : Operand :=
  { Operand.ofFields s.lodIndex s.lodBank s.lodExtended true with
    encoding := .ofCoordinateSelector s.coordEncoding }

/-- The operand that receives the texel, for a sampler of the given encoding. -/
def destOperand (s : Sample) (declared : Encoding) : Operand where
  bank := if s.destPrimAttr then .primAttr else .temp
  index := s.destIndex.toUInt32
  encoding := (DestFormat.ofSelector s.destFormat).resolve declared

end Sample

end TextureLift
