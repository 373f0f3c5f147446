import TextureLift.Number.Binary

/-!
# Single-precision patterns

Floating-point lanes are kept as their 32-bit patterns, so that moving a lane never changes it and
NaN payloads and signed zeros stay visible. The operations here are exact integer arithmetic on the
decoded patterns followed by one rounding to nearest, ties to even.

Integers are 32-bit words too; signed ones are in two's complement.
-/

namespace TextureLift.Number.Single

/-- The datum of a pattern. -/
def decode (bits : UInt32) : Datum :=
  Format.single.decode bits.toNat

/-- The pattern nearest to `± m * 2 ^ e`. -/
def nearest (negative : Bool) (m : Nat) (e : Int) : UInt32 :=
  .ofNat (Format.single.round negative m e)

/-- The pattern nearest to an integer. -/
def ofInt (n : Int) : UInt32 :=
  nearest (n < 0) n.natAbs 0

/-- The pattern nearest to an unsigned word. -/
def ofUnsigned (w : UInt32) : UInt32 :=
  ofInt w.toNat

/-- The pattern nearest to a two's complement word. -/
def ofSigned (w : UInt32) : UInt32 :=
  ofInt w.toInt32.toInt

def isNaN (bits : UInt32) : Bool :=
  match decode bits with
  | .nan .. => true
  | _ => false

/-- The NaN itself with its quiet bit set. -/
def quiet (bits : UInt32) : UInt32 :=
  bits ||| .ofNat Format.single.quietWeight

/-- The NaN that stands for an invalid operation. -/
def invalid : UInt32 :=
  .ofNat (Format.single.quietNaN true 0)

def infinity (negative : Bool) : UInt32 :=
  .ofNat (Format.single.withSign negative Format.single.infinity)

def zero : UInt32 := 0

def one : UInt32 := ofInt 1

/-- The most negative finite number. -/
def lowest : UInt32 := 0xff7fffff

/-- The largest finite number. -/
def highest : UInt32 := 0x7f7fffff

/-- Product. A NaN operand is passed on quietly, the first one if both are. -/
def mul (a b : UInt32) : UInt32 :=
  match decode a, decode b with
  | .nan .., _ => quiet a
  | _, .nan .. => quiet b
  | .infinite s, .infinite t => infinity (s != t)
  | .infinite s, .finite t m _ => if m = 0 then invalid else infinity (s != t)
  | .finite s m _, .infinite t => if m = 0 then invalid else infinity (s != t)
  | .finite s m e, .finite t n g => nearest (s != t) (m * n) (e + g)

/-- The nearest integer, ties away from zero, with the sign of the operand. -/
def roundAway (a : UInt32) : UInt32 :=
  match decode a with
  | .nan .. => quiet a
  | .infinite _ => a
  | .finite s m e => nearest s (nearestAway m e) 0

/-- Position in the order of the numbers. Both zeros have position zero, NaNs have no meaning here. -/
def rank (a : UInt32) : Int :=
  if a.toNat < Format.single.signWeight then a.toNat
  else Format.single.signWeight - a.toNat

/-- The larger operand, the second one if they are equal. A NaN gives way to the other operand, and
the second one gives way first. -/
def maximum (a b : UInt32) : UInt32 :=
  if isNaN b then a
  else if isNaN a then b
  else if rank b < rank a then a else b

/-- The smaller operand, the second one if they are equal. A NaN gives way to the other operand, and
the second one gives way first. -/
def minimum (a b : UInt32) : UInt32 :=
  if isNaN b then a
  else if isNaN a then b
  else if rank a < rank b then a else b

/-- Brings a number into the interval from `lo` to `hi`; a NaN becomes `lo`. A bound that is a NaN is
none. -/
def clamp (a lo hi : UInt32) : UInt32 :=
  minimum (maximum a lo) hi

/-- The integer part as an unsigned word. Numbers out of range saturate and NaNs become zero. -/
def toUnsigned (a : UInt32) : UInt32 :=
  match decode a with
  | .nan .. => 0
  | .infinite negative => if negative then 0 else 0xffffffff
  | .finite negative m e =>
    if negative then 0 else .ofNat (min (truncate m e) 0xffffffff)

/-- The integer part as a two's complement word. Numbers out of range saturate and NaNs become
zero. -/
def toSigned (a : UInt32) : UInt32 :=
  match decode a with
  | .nan .. => 0
  | .infinite negative => if negative then 0x80000000 else 0x7fffffff
  | .finite negative m e =>
    if negative then -.ofNat (min (truncate m e) 0x80000000)
    else .ofNat (min (truncate m e) 0x7fffffff)

end TextureLift.Number.Single
