import TextureLift.Instruction.Operands

/-!
# Listings

One line of text for a sample instruction, such as `p0 SMP2d.u8.f16 r0.xyzw pa2.xy sa6 r8.x`.
-/

namespace TextureLift

/-- What a line of a listing shows. -/
structure ListingLine where
  predicate : Predicate
  /-- Number of coordinates. -/
  dimension : UInt8
  dest : Operand
  destMask : LaneMask
  coord : Operand
  coordMask : LaneMask
  sampler : Operand
  lod : Option (Operand × LaneMask) := none

namespace ListingLine

/-- Predicate, mnemonic with dimension and encodings, then the operands. -/
def text (l : ListingLine) : String :=
  let operands := [l.dest.text l.destMask, l.coord.text l.coordMask, l.sampler.text .empty]
    ++ (l.lod.map fun (op, mask) => op.text mask).toList
  l.predicate.text ++ "SMP" ++ l.dimension.toNat.repr ++ "d." ++ l.dest.encoding.mnemonic ++ "."
    ++ l.coord.encoding.mnemonic ++ " " ++ " ".intercalate operands

end ListingLine

end TextureLift
