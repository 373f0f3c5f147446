import Std.Data.ExtTreeMap
import TextureLift.Fault
import TextureLift.Machine.Value
import TextureLift.Module.Builder

/-!
# The state of the machine

The machine runs the body of a module under construction. It remembers the values of instructions,
the contents of variables and the samples that were asked for. Constants need no state: their values
come from the table of definitions.

A variable that was never written reads as zeros of its type, or as its own image if it holds one.
-/

namespace TextureLift

/-- A finite map whose keys are words, in ascending order. -/
abbrev WordMap (α : Type) := Std.ExtTreeMap UInt32 α

/-- A request for a texel. -/
structure SampleCall where
  /-- The variable that the image came from. -/
  image : Ref
  opcode : Opcode
  coord : List UInt32
  lod : Option UInt32 := none
  grad : Option (List UInt32 × List UInt32) := none
  deriving DecidableEq, Repr

/-- Four lanes of a sampled image. -/
structure Texel where
  x : UInt32
  y : UInt32
  z : UInt32
  w : UInt32
  deriving DecidableEq, Repr

def Texel.lanes (t : Texel) : List UInt32 :=
  [t.x, t.y, t.z, t.w]

/-- The texel for a request, given the number of requests before it. -/
abbrev Texels := Nat → SampleCall → Texel

/-- Why the machine refuses an instruction. -/
inductive MachineError where
  | unsupported (opcode : Opcode)
  | missingValue (id : Ref)
  | malformed (opcode : Opcode)
  deriving DecidableEq, Repr

def MachineError.message : MachineError → String
  | unsupported opcode => "Unsupported opcode: " ++ opcode.name
  | missingValue id => "Value " ++ id.text ++ " is not defined"
  | malformed opcode => "Malformed " ++ opcode.name ++ " instruction"

/-- Why a run stopped before the end of the body. -/
inductive Stop where
  | error (e : MachineError)
  | fault (f : Fault)
  deriving DecidableEq, Repr

/-- The state of the machine. -/
structure Machine where
  values : WordMap Value := ∅
  memory : WordMap Value := ∅
  /-- The requests of the current run, oldest first. -/
  samples : Array SampleCall := #[]

namespace Builder

/-- What the lanes of values of a type are taken for. -/
def scalarKind? (b : Builder) (type : Ref) : Option ScalarKind :=
  match b.typeDecl? (b.containedType type) with
  | some (.float _) => some .f32
  | some (.int _ signed) => some (if signed then .i32 else .u32)
  | _ => none

/-- The value of a constant. -/
def constantValue? (b : Builder) (id : Ref) : Option Value := do
  let (type, bits) ← b.constant? id
  let kind ← b.scalarKind? type
  return .lanes kind [bits]

/-- The contents of a variable that was never written. -/
def initialValue (b : Builder) (pointer : Ref) : Value :=
  let pointerType := (b.typeOf? pointer).getD .none
  match b.typeDecl? pointerType with
  | some (.pointer .uniformConstant _) => .image pointer
  | _ =>
    let pointee := b.containedType pointerType
    .lanes ((b.scalarKind? pointee).getD .f32)
      (List.replicate (b.typeComponents pointee).toNat 0)

end Builder

namespace Machine

/-- The value of an instruction or constant. -/
def value? (m : Machine) (b : Builder) (id : Ref) : Option Value :=
  m.values[id.word]?.or (b.constantValue? id)

/-- The contents of a variable that was written. -/
def contents? (m : Machine) (id : Ref) : Option Value :=
  m.memory[id.word]?

/-- The contents of a variable. -/
def read (m : Machine) (b : Builder) (pointer : Ref) : Value :=
  (m.contents? pointer).getD (b.initialValue pointer)

/-- Writes a variable. -/
def write (m : Machine) (pointer : Ref) (value : Value) : Machine :=
  { m with memory := m.memory.insert pointer.word value }

/-- Gives the result of an instruction its value. -/
def define (m : Machine) (i : Inst) (value : Value) : Machine :=
  match i.result with
  | some id => { m with values := m.values.insert id.word value }
  | none => m

end Machine

end TextureLift
