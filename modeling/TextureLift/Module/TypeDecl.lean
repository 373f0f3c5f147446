import TextureLift.Module.Inst

/-!
# Type declarations

Types refer to each other by id. Two declarations are the same type only if they are equal.
-/

namespace TextureLift

/-- Where a variable lives. -/
inductive Storage where
  | uniformConstant
  | input
  | output
  | priv
  | function
  deriving DecidableEq, Repr

def Storage.number : Storage → UInt32
  | uniformConstant => 0
  | input => 1
  | output => 3
  | priv => 6
  | function => 7

/-- Number of dimensions of an image. -/
inductive ImageDim where
  | one
  | two
  | three
  deriving DecidableEq, Repr

def ImageDim.number : ImageDim → UInt32
  | one => 0
  | two => 1
  | three => 2

/-- What a type id stands for. -/
inductive TypeDecl where
  | void
  | bool
  | int (width : UInt32) (signed : Bool)
  | float (width : UInt32)
  | vector (component : Ref) (count : UInt32)
  | pointer (storage : Storage) (pointee : Ref)
  | image (sampled : Ref) (dim : ImageDim)
  | sampledImage (image : Ref)
  | function (result : Ref)
  deriving DecidableEq, Repr

namespace TypeDecl

def opcode : TypeDecl → Opcode
  | void => .typeVoid
  | bool => .typeBool
  | int .. => .typeInt
  | float .. => .typeFloat
  | vector .. => .typeVector
  | pointer .. => .typePointer
  | image .. => .typeImage
  | sampledImage .. => .typeSampledImage
  | function .. => .typeFunction

/-- The operands of the declaration. Images are sampled ones of one layer and one sample, with no
depth and no known format. -/
def operands : TypeDecl → List UInt32
  | void | bool => []
  | int width signed => [width, signed.toUInt32]
  | float width => [width]
  | vector component count => [component.word, count]
  | pointer storage pointee => [storage.number, pointee.word]
  | image sampled dim => [sampled.word, dim.number, 0, 0, 0, 1, 0]
  | sampledImage base => [base.word]
  | function result => [result.word]

/-- The instruction that declares the type under an id. -/
def inst (t : TypeDecl) (id : Ref) : Inst where
  opcode := t.opcode
  result := some id
  operands := t.operands

end TypeDecl

end TextureLift
