import TextureLift.Fault
import TextureLift.Module.Builder

/-!
# Building modules

`Build` is the monad of actions on a module under construction that may run out of ids. Types and
constants are interned: declaring one again gives the id of the first declaration and adds nothing.
All other actions that return an id define a new one.
-/

namespace TextureLift

/-- Actions on a module under construction. -/
abbrev Build := StateT Builder (Except Fault)

namespace Build

/-! ## Ids -/

/-- Defines the next id. The bound of the module has to stay a word. -/
def fresh (d : Definition) : Build Ref := fun b =>
  if b.definitions.size + 1 < UInt32.size then
    .ok (⟨.ofNat b.definitions.size⟩, { b with definitions := b.definitions.push d })
  else .error .idsExhausted

/-- The id of the first equal definition, or else a new one. -/
def intern (d : Definition) : Build Ref := do
  match (← get).definitions.idxOf? d with
  | some i => return ⟨.ofNat i⟩
  | none => fresh d

/-- Imports the extended instruction set, once. -/
def importExtSet : Build Ref := do
  match (← get).extSet with
  | some id => return id
  | none =>
    let id ← fresh .plain
    modify ({ · with extSet := some id })
    return id

/-! ## Types -/

def type (decl : TypeDecl) : Build Ref :=
  intern (.type decl)

def floatType (width : UInt32) : Build Ref :=
  type (.float width)

def intType (width : UInt32) : Build Ref :=
  type (.int width true)

def uintType (width : UInt32) : Build Ref :=
  type (.int width false)

/-- A vector type; a vector of one component is the component. -/
def vectorType (component : Ref) (count : UInt32) : Build Ref :=
  if count = 1 then return component else type (.vector component count)

/-- Vector of single-precision floats. -/
def floatVectorType (count : UInt32) : Build Ref := do
  vectorType (← floatType 32) count

/-! ## Constants and variables -/

/-- A single-precision constant, by its pattern. -/
def floatConstant (bits : UInt32) : Build Ref := do
  intern (.constant (← floatType 32) bits)

def uintConstant (value : UInt32) : Build Ref := do
  intern (.constant (← uintType 32) value)

/-- A signed constant in two's complement. -/
def intConstant (bits : UInt32) : Build Ref := do
  intern (.constant (← intType 32) bits)

/-- A variable at module scope. -/
def variableOf (storage : Storage) (pointee : Ref) : Build Ref := do
  fresh (.var (← type (.pointer storage pointee)) storage)

def decorate (target : Ref) (kind value : UInt32) : Build Unit :=
  modify (·.decorate ⟨target, kind, value⟩)

/-! ## Body -/

/-- Appends an instruction with a result. -/
def emit (opcode : Opcode) (resultType : Ref) (operands : List UInt32) : Build Ref := do
  let id ← fresh (.value resultType)
  modify (·.append ⟨opcode, some resultType, some id, operands⟩)
  return id

/-- The type of a value, or the id that no definition has. -/
def typeOrNone (value : Ref) : Build Ref :=
  return ((← get).typeOf? value).getD .none

def load (pointer : Ref) : Build Ref := do
  let pointerType ← typeOrNone pointer
  emit .load ((← get).containedType pointerType) [pointer.word]

def store (pointer value : Ref) : Build Unit :=
  modify (·.append { opcode := .store, operands := [pointer.word, value.word] })

def bitcast (type value : Ref) : Build Ref :=
  emit .bitcast type [value.word]

def construct (type : Ref) (parts : List Ref) : Build Ref :=
  emit .compositeConstruct type (parts.map Ref.word)

def extract (composite : Ref) (index : UInt32) : Build Ref := do
  let compositeType ← typeOrNone composite
  emit .compositeExtract ((← get).containedType compositeType) [composite.word, index]

/-- The composite with one component replaced by an object. -/
def insert (object composite : Ref) (index : UInt32) : Build Ref := do
  emit .compositeInsert (← typeOrNone composite) [object.word, composite.word, index]

def shuffle (type a b : Ref) (lanes : List UInt32) : Build Ref :=
  emit .vectorShuffle type (a.word :: b.word :: lanes)

def extInst (type : Ref) (opcode : ExtOpcode) (args : List Ref) : Build Ref := do
  let set ← importExtSet
  emit .extInst type (set.word :: opcode.number :: args.map Ref.word)

/-- Opens a function without parameters and result, and its only block. -/
def beginFunction : Build Ref := do
  let void ← type .void
  let functionType ← type (.function void)
  let function ← fresh .plain
  modify (·.append ⟨.function, some void, some function, [0, functionType.word]⟩)
  let label ← fresh .plain
  modify (·.append { opcode := .label, result := some label })
  return function

end Build

end TextureLift
