import TextureLift.Module.Build
import TextureLift.Number.Single

/-!
# Unpacking

Register components are 32-bit words that the module types as floats. Unpacking takes one lane, or
all lanes, of a component as floats of the number they encode.
-/

namespace TextureLift.Lowering

open Build

/-- One in fixed point. -/
def fixedOne : UInt32 := Number.Single.ofInt 255

/-- The value of the last place of a fixed-point number: the single nearest to 1/255. -/
def fixedStep : UInt32 := 0x3b808081

/-- A bit field of a raw component, converted to a float. -/
def unpackField (raw : Ref) (e : Encoding) (lane : UInt32) : Build Ref := do
  let float ← floatType 32
  let offset ← uintConstant (← checkedMul lane e.bits)
  let count ← uintConstant e.bits
  if e.isSigned then
    let int ← intType 32
    let bits ← bitcast int raw
    let field ← emit .bitFieldSExtract int [bits.word, offset.word, count.word]
    emit .convertSToF float [field.word]
  else
    let uint ← uintType 32
    let bits ← bitcast uint raw
    let field ← emit .bitFieldUExtract uint [bits.word, offset.word, count.word]
    emit .convertUToF float [field.word]

/-- Both halves of a raw component as a vector of floats. -/
def unpackHalves (raw : Ref) : Build Ref := do
  let float ← floatType 32
  let uint ← uintType 32
  let pair ← vectorType float 2
  let bits ← bitcast uint raw
  extInst pair .unpackHalf2x16 [bits]

/-- Lane `lane` of a raw component as a float. -/
def unpackLane (raw : Ref) (e : Encoding) (lane : UInt32) : Build Ref := do
  let float ← floatType 32
  match e with
  | .f32 => return raw
  | .f16 => extract (← unpackHalves raw) lane
  | .u32 =>
    let bits ← bitcast (← uintType 32) raw
    emit .convertUToF float [bits.word]
  | .s32 =>
    let bits ← bitcast (← intType 32) raw
    emit .convertSToF float [bits.word]
  | .c10 =>
    let converted ← unpackField raw e lane
    let step ← floatConstant fixedStep
    emit .fMul float [converted.word, step.word]
  | .u8 | .s8 | .u16 | .s16 => unpackField raw e lane

/-- All lanes of a raw component as a vector of floats. -/
def unpackAll (raw : Ref) (e : Encoding) : Build Ref := do
  match e with
  | .f32 => return raw
  | .f16 => unpackHalves raw
  | _ =>
    let float ← floatType 32
    let lanes ← (List.range e.lanesPerComponent.toNat).mapM fun lane =>
      unpackLane raw e (.ofNat lane)
    match lanes with
    | [lane] => return lane
    | _ => construct (← vectorType float e.lanesPerComponent) lanes

end TextureLift.Lowering
