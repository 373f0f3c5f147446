import TextureLift.Lowering.Saturate

/-!
# Texture fetches

A fetch takes a coordinate that may still be in its packed encoding, samples an image and converts
the four lanes of the texel to the numbers of the destination's encoding.
-/

namespace TextureLift

/-- A coordinate with the encoding that it is still in. -/
structure Coord where
  value : Ref
  encoding : Encoding := .f32
  deriving DecidableEq, Repr

/-- How the level of detail of a fetch is chosen. -/
inductive FetchLod where
  | implicit
  /-- Implicit, with the last coordinate lane as divisor. -/
  | projective
  /-- Given by a scalar. -/
  | bias (lod : Ref)
  | gradient (dx dy : Ref)
  deriving DecidableEq, Repr

namespace Lowering

open Build Number

/-- The value that a pointer points to; other values are themselves. -/
def dereference (value : Ref) : Build Ref := do
  if (← get).isPointer value then load value else return value

/-- The first lanes of a packed coordinate, at most two, unpacked from its first component. -/
def unpackCoord (value : Ref) (e : Encoding) : Build Ref := do
  let value ← dereference value
  let raw ← if 1 < (← get).components value then do
      let float ← floatType 32
      let zero ← intConstant 0
      emit .vectorExtractDynamic float [value.word, zero.word]
    else pure value
  let lanes ← unpackAll raw e
  if 2 < (← get).components lanes then
    shuffle (← floatVectorType 2) lanes lanes [0, 1]
  else return lanes

/-- The coordinate as floats. -/
def normalizeCoord (coord : Coord) : Build Ref := do
  let unpacked ← if coord.encoding = .f32 then pure coord.value
    else unpackCoord coord.value coord.encoding
  let value ← dereference unpacked
  if (← get).isFloat value then return value else throw (.coordNotFloat value)

/-- Samples the image of a texture at a coordinate of floats. -/
def sampleImage (texture coord : Ref) (lod : FetchLod) : Build Ref := do
  let vec4 ← floatVectorType 4
  let image ← load texture
  match lod with
  | .implicit => emit .imageSampleImplicitLod vec4 [image.word, coord.word]
  | .projective => emit .imageSampleProjImplicitLod vec4 [image.word, coord.word]
  | .bias level => emit .imageSampleExplicitLod vec4 [image.word, coord.word, 2, level.word]
  | .gradient dx dy =>
    emit .imageSampleExplicitLod vec4 [image.word, coord.word, 4, dx.word, dy.word]

/-- Samples a texture. The texel is converted for integer destinations and raw for all others. -/
def fetch (texture : Ref) (coord : Coord) (dest : Encoding) (lod : FetchLod) : Build Ref := do
  let coord ← normalizeCoord coord
  let texel ← sampleImage texture coord lod
  if dest.isInteger then saturateTo texel dest else return texel

/-- Element `element` of a packed coordinate of `count` components, as a float. Elements past the
last component are zero. -/
def coordElement (base : Ref) (count : UInt32) (e : Encoding) (element : UInt32) : Build Ref := do
  let component := element / e.lanesPerComponent
  if count ≤ component then floatConstant Single.zero
  else
    let raw ← if 1 < count then extract base component else pure base
    unpackLane raw e (element % e.lanesPerComponent)

/-- The first two elements of a coordinate and the one to divide by. -/
def projectedCoord (coord : Coord) (divisor : UInt8) : Build Ref := do
  let base ← dereference coord.value
  let vec3 ← floatVectorType 3
  if coord.encoding = .f32 then
    shuffle vec3 base base [0, 1, divisor.toUInt32]
  else
    let count := (← get).components base
    let x ← coordElement base count coord.encoding 0
    let y ← coordElement base count coord.encoding 1
    let q ← coordElement base count coord.encoding divisor.toUInt32
    construct vec3 [x, y, q]

end Lowering

end TextureLift
