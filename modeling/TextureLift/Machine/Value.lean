import TextureLift.Module.Inst

/-!
# Run-time values

A value is a list of 32-bit lanes of one kind, or an image that was loaded from a variable. Lanes
are kept as bits whatever their kind.
-/

namespace TextureLift

/-- What the lanes of a value are taken for. -/
inductive ScalarKind where
  | f32
  | u32
  | i32
  deriving DecidableEq, Repr

/-- A value of the machine. -/
inductive Value where
  | lanes (kind : ScalarKind) (bits : List UInt32)
  /-- The image and sampler of a variable. -/
  | image (source : Ref)
  deriving DecidableEq, Repr

namespace Value

/-- The lanes as bits; an image is the id of its variable. -/
def bits : Value → List UInt32
  | lanes _ bits => bits
  | image source => [source.word]

/-- Number of lanes. -/
def size (v : Value) : Nat :=
  v.bits.length

/-- The lanes of a floating-point value. -/
def floats? : Value → Option (List UInt32)
  | lanes .f32 bits => some bits
  | _ => none

/-- The lanes of a signed value, as numbers. -/
def ints? : Value → Option (List Int)
  | lanes .i32 bits => some (bits.map (·.toInt32.toInt))
  | _ => none

end Value

end TextureLift
