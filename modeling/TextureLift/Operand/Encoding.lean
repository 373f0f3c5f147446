/-!
# Numeric encodings

A register component is a 32-bit word. An encoding says how many lanes share one component and what
number the bits of a lane stand for.
-/

namespace TextureLift

/-- Numeric encoding of the lanes of an operand. -/
inductive Encoding where
  | f32
  | f16
  /-- Signed fixed point of ten bits; 255 stands for one. -/
  | c10
  | u8
  | s8
  | u16
  | s16
  | u32
  | s32
  deriving DecidableEq, Repr

namespace Encoding

def all : List Encoding :=
  [f32, f16, c10, u8, s8, u16, s16, u32, s32]

/-- The name that documents use. -/
def keyword : Encoding → String
  | f32 => "F32"
  | f16 => "F16"
  | c10 => "C10"
  | u8 => "U8"
  | s8 => "S8"
  | u16 => "U16"
  | s16 => "S16"
  | u32 => "U32"
  | s32 => "S32"

def ofKeyword? (s : String) : Option Encoding :=
  all.find? (·.keyword == s)

/-- The name that listings use. -/
def mnemonic : Encoding → String
  | f32 => "f32"
  | f16 => "f16"
  | c10 => "c10"
  | u8 => "u8"
  | s8 => "i8"
  | u16 => "u16"
  | s16 => "i16"
  | u32 => "u32"
  | s32 => "i32"

def isFloat : Encoding → Bool
  | f32 | f16 => true
  | _ => false

def isInteger : Encoding → Bool
  | u8 | s8 | u16 | s16 | u32 | s32 => true
  | f32 | f16 | c10 => false

/-- Encodings whose lanes are read as two's complement numbers. -/
def isSigned : Encoding → Bool
  | c10 | s8 | s16 | s32 => true
  | _ => false

/-- Width of a lane. -/
def bits : Encoding → UInt32
  | f32 | u32 | s32 => 32
  | f16 | u16 | s16 => 16
  | c10 => 10
  | u8 | s8 => 8

/-- How many lanes share one component. -/
def lanesPerComponent (e : Encoding) : UInt32 :=
  32 / e.bits

/-- The interval that numbers are brought into before they become integers. Its ends are exact in
single precision, so the upper ends of the 32-bit encodings are the largest such numbers in range. -/
def range? : Encoding → Option (Int × Int)
  | u8 => some (0, 255)
  | s8 => some (-128, 127)
  | u16 => some (0, 65535)
  | s16 => some (-32768, 32767)
  | u32 => some (0, 4294967040)
  | s32 => some (-2147483648, 2147483520)
  | f32 | f16 | c10 => none

/-- The encoding of a coordinate, by its two-bit selector. -/
def ofCoordinateSelector (selector : UInt8) : Encoding :=
  match (selector &&& 3).toNat with
  | 0 => f32
  | 1 => f16
  | _ => c10

end Encoding

/-- How a sample instruction chooses the encoding of its destination. -/
inductive DestFormat where
  | fixed (encoding : Encoding)
  /-- The encoding that the sampler declares. -/
  | fromSampler
  deriving DecidableEq, Repr

namespace DestFormat

/-- The destination format, by its two-bit selector. -/
def ofSelector (selector : UInt8) : DestFormat :=
  match (selector &&& 3).toNat with
  | 1 => fromSampler
  | 2 => fixed .f16
  | _ => fixed .f32

/-- The encoding to store, given the one that the sampler declares. -/
def resolve : DestFormat → Encoding → Encoding
  | fixed encoding, _ => encoding
  | fromSampler, declared => declared

end DestFormat

end TextureLift
