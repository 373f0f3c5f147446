import TextureLift.Number.Single

/-!
# Half-precision patterns

Two half-precision numbers share one 32-bit word, the first in the low 16 bits. Narrowing rounds to
nearest, ties to even; widening is exact. A NaN keeps its sign and as much of its payload as fits,
and becomes quiet.
-/

namespace TextureLift.Number.Half

/-- How much longer the fraction field of the 32-bit format is. -/
def fractionGap : Nat :=
  Format.single.fractionBits - Format.half.fractionBits

/-- The half-precision pattern nearest to a single-precision one. -/
def ofSingle (bits : UInt32) : UInt16 :=
  .ofNat <| match Single.decode bits with
  | .nan negative fraction => Format.half.quietNaN negative (fraction / Nat.pow 2 fractionGap)
  | .infinite negative => Format.half.withSign negative Format.half.infinity
  | .finite negative m e => Format.half.round negative m e

/-- The single-precision pattern of the same number. -/
def toSingle (bits : UInt16) : UInt32 :=
  .ofNat <| match Format.half.decode bits.toNat with
  | .nan negative fraction => Format.single.quietNaN negative (fraction * Nat.pow 2 fractionGap)
  | .infinite negative => Format.single.withSign negative Format.single.infinity
  | .finite negative m e => Format.single.round negative m e

/-- Two halves in one word, the first in the low bits. -/
def pack (lo hi : UInt16) : UInt32 :=
  lo.toUInt32 ||| hi.toUInt32 <<< 16

/-- The half in the low bits. -/
def low (word : UInt32) : UInt16 :=
  word.toUInt16

/-- The half in the high bits. -/
def high (word : UInt32) : UInt16 :=
  (word >>> 16).toUInt16

end TextureLift.Number.Half
