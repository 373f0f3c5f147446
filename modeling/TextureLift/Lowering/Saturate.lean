import TextureLift.Lowering.Unpack

/-!
# Saturating conversions

Floats on their way to an integer or fixed-point encoding are rounded, clamped to the range of the
encoding and converted, all lanes at once. The result is a value of 32-bit integers with as many
lanes as the operand.
-/

namespace TextureLift.Lowering

open Build Number

/-- A constant repeated in `count` lanes. -/
def splat (bits count : UInt32) : Build Ref := do
  let constant ← floatConstant bits
  if count = 1 then return constant
  construct (← floatVectorType count) (List.replicate count.toNat constant)

/-- Rounds to nearest, clamps to the interval from `lo` to `hi` and converts to integers. -/
def saturate (value : Ref) (lo hi : UInt32) (signed : Bool) : Build Ref := do
  let count := (← get).components value
  let float ← floatVectorType count
  let rounded ← extInst float .round [value]
  let lower ← splat lo count
  let upper ← splat hi count
  let clamped ← extInst float .fClamp [rounded, lower, upper]
  if signed then
    emit .convertFToS (← vectorType (← intType 32) count) [clamped.word]
  else
    emit .convertFToU (← vectorType (← uintType 32) count) [clamped.word]

/-- Converts to the integers of an integer encoding. -/
def saturateTo (value : Ref) (e : Encoding) : Build Ref := do
  match e.range? with
  | some (lo, hi) => saturate value (Single.ofInt lo) (Single.ofInt hi) e.isSigned
  | none => throw (.notInteger e)

/-- Converts to fixed-point numbers of ten bits. -/
def saturateFixed (value : Ref) : Build Ref := do
  let count := (← get).components value
  let float ← floatVectorType count
  let scale ← splat fixedOne count
  let scaled ← emit .fMul float [value.word, scale.word]
  saturate scaled (Single.ofInt (-512)) (Single.ofInt 511) true

end TextureLift.Lowering
