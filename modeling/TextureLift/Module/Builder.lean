import TextureLift.Module.Literal
import TextureLift.Module.TypeDecl

/-!
# Modules under construction

Ids are the positions of a table of definitions, so an id is defined at most once and the bound of a
module is the size of its table. Position 0 is never an id. Types, constants and variables are
declared in the order of their ids, and `Builder.globals` is a view of the table; the instructions of
the body are kept apart, since some of them define nothing.

`Builder.words` is the binary form: five header words, then the sections in their fixed order.
-/

namespace TextureLift

/-- What an id stands for. -/
inductive Definition where
  /-- An id without a type: an imported set, a function, a label or a reserved id. -/
  | plain
  | type (decl : TypeDecl)
  | constant (type : Ref) (bits : UInt32)
  | var (type : Ref) (storage : Storage)
  /-- The result of an instruction of the body. -/
  | value (type : Ref)
  deriving DecidableEq, Repr

namespace Definition

/-- The type of a typed value. -/
def valueType? : Definition → Option Ref
  | constant t _ | var t _ | value t => some t
  | plain | type _ => none

/-- The declaration of a type, constant or variable under an id. -/
def declaration? (d : Definition) (id : Ref) : Option Inst :=
  match d with
  | type decl => some (decl.inst id)
  | constant t bits => some ⟨.constant, some t, some id, [bits]⟩
  | var t storage => some ⟨.var, some t, some id, [storage.number]⟩
  | plain | value _ => none

end Definition

/-- A function that a pipeline may start at, with the variables of its interface. -/
structure EntryPoint where
  model : UInt32
  function : Ref
  name : String
  interface : List Ref
  deriving DecidableEq, Repr

def EntryPoint.inst (e : EntryPoint) : Inst where
  opcode := .entryPoint
  operands := [e.model, e.function.word] ++ Literal.ofString e.name ++ e.interface.map Ref.word

/-- How a function of an entry point is executed. -/
structure ExecutionMode where
  function : Ref
  mode : UInt32
  deriving DecidableEq, Repr

def ExecutionMode.inst (e : ExecutionMode) : Inst where
  opcode := .executionMode
  operands := [e.function.word, e.mode]

/-- A property of a variable. -/
structure Decoration where
  target : Ref
  kind : UInt32
  value : UInt32
  deriving DecidableEq, Repr

namespace Decoration

def location : UInt32 := 30
def binding : UInt32 := 33
def descriptorSet : UInt32 := 34

def inst (d : Decoration) : Inst where
  opcode := .decorate
  operands := [d.target.word, d.kind, d.value]

end Decoration

/-- A module under construction. -/
structure Builder where
  definitions : Array Definition := #[.plain]
  capabilities : Array UInt32 := #[]
  /-- The id of the imported extended instruction set. -/
  extSet : Option Ref := none
  memoryModel : Bool := false
  entryPoints : Array EntryPoint := #[]
  executionModes : Array ExecutionMode := #[]
  decorations : Array Decoration := #[]
  body : Array Inst := #[]
  deriving DecidableEq, Repr

namespace Builder

/-! ## The table of definitions -/

/-- One more than the largest id. -/
def bound (b : Builder) : UInt32 :=
  .ofNat b.definitions.size

def definition? (b : Builder) (id : Ref) : Option Definition :=
  b.definitions[id.word.toNat]?

def typeDecl? (b : Builder) (id : Ref) : Option TypeDecl :=
  match b.definition? id with
  | some (.type decl) => some decl
  | _ => none

/-- The type of a value. -/
def typeOf? (b : Builder) (value : Ref) : Option Ref :=
  (b.definition? value).bind Definition.valueType?

/-- Type and bits of a constant. -/
def constant? (b : Builder) (id : Ref) : Option (Ref × UInt32) :=
  match b.definition? id with
  | some (.constant type bits) => some (type, bits)
  | _ => none

/-- Declarations of types, constants and variables, in the order of their ids. -/
def globals (b : Builder) : List Inst :=
  b.definitions.toList.zipIdx.filterMap fun (d, i) => d.declaration? ⟨.ofNat i⟩

/-! ## Types of values -/

/-- The component type of a vector, the pointee of a pointer, otherwise the type itself. -/
def containedType (b : Builder) (type : Ref) : Ref :=
  match b.typeDecl? type with
  | some (.vector component _) => component
  | some (.pointer _ pointee) => pointee
  | _ => type

def typeComponents (b : Builder) (type : Ref) : UInt32 :=
  match b.typeDecl? type with
  | some (.vector _ count) => count
  | _ => 1

/-- Number of components of a value; zero for ids without a type. -/
def components (b : Builder) (value : Ref) : UInt32 :=
  match b.typeOf? value with
  | some type => b.typeComponents type
  | none => 0

def isPointer (b : Builder) (value : Ref) : Bool :=
  match (b.typeOf? value).bind b.typeDecl? with
  | some (.pointer ..) => true
  | _ => false

/-- Whether a type is a float or a vector of floats. -/
def isFloatType (b : Builder) (type : Ref) : Bool :=
  let scalar := match b.typeDecl? type with
    | some (.vector component _) => component
    | _ => type
  match b.typeDecl? scalar with
  | some (.float _) => true
  | _ => false

def isFloat (b : Builder) (value : Ref) : Bool :=
  (b.typeOf? value).any b.isFloatType

/-! ## Sections -/

def annotations (b : Builder) : List Inst :=
  b.decorations.toList.map Decoration.inst

/-- Name of the extended instruction set. -/
def extSetName : String := "GLSL.std.450"

def imports (b : Builder) : List Inst :=
  b.extSet.toList.map fun id => ⟨.extInstImport, none, some id, Literal.ofString extSetName⟩

/-- All instructions in the order of the binary form. -/
def insts (b : Builder) : List Inst :=
  b.capabilities.toList.map (fun capability => { opcode := .capability, operands := [capability] })
    ++ b.imports
    ++ (if b.memoryModel then [{ opcode := .memoryModel, operands := [0, 1] }] else [])
    ++ b.entryPoints.toList.map EntryPoint.inst
    ++ b.executionModes.toList.map ExecutionMode.inst
    ++ b.annotations
    ++ b.globals
    ++ b.body.toList

/-- The instruction of the declarations or the body that defines an id. -/
def defining? (b : Builder) (id : Ref) : Option Inst :=
  (b.globals ++ b.body.toList).find? (·.result == some id)

/-- Magic number, version, generator, bound and a reserved word. -/
def header (b : Builder) : List UInt32 :=
  [0x07230203, 0x00010000, 0x00080001, b.bound, 0]

/-- The binary form. -/
def words (b : Builder) : List UInt32 :=
  b.header ++ b.insts.flatMap Inst.words

/-! ## Additions that define no id -/

def addCapability (b : Builder) (capability : UInt32) : Builder :=
  { b with capabilities := b.capabilities.push capability }

/-- Logical addressing with the memory model of the extended set. -/
def setMemoryModel (b : Builder) : Builder :=
  { b with memoryModel := true }

def addEntryPoint (b : Builder) (e : EntryPoint) : Builder :=
  { b with entryPoints := b.entryPoints.push e }

def addExecutionMode (b : Builder) (e : ExecutionMode) : Builder :=
  { b with executionModes := b.executionModes.push e }

def decorate (b : Builder) (d : Decoration) : Builder :=
  { b with decorations := b.decorations.push d }

/-- Appends an instruction to the body. -/
def append (b : Builder) (i : Inst) : Builder :=
  { b with body := b.body.push i }

/-- Closes the open function. -/
def endFunction (b : Builder) : Builder :=
  (b.append { opcode := .ret }).append { opcode := .functionEnd }

end Builder

end TextureLift
