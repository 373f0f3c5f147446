import TextureLift.Lowering.Saturate
import TextureLift.Operand.Basic

/-!
# The register file

Every bank is a run of 32-bit components, four to a slot: component `c` is lane `c % 4` of slot
`c / 4`. Plain operands address the primary window of a bank; the alternate window has slots of its
own. A slot becomes a private variable when it is first touched.

Loading gives the lanes of a mask as floats. Storing encodes the lanes of a value and writes them to
consecutive elements; lanes that fall outside the bank are dropped. `RegisterFile.canLoad` tells
whether loading would succeed and emits nothing.
-/

namespace TextureLift

namespace Window

/-- The window that plain operands address. -/
def primary : UInt8 := 0

/-- The other window of the same bank. -/
def alternate : UInt8 := 1

end Window

/-- The place of four components. -/
structure Slot where
  bank : Bank
  window : UInt8
  index : UInt32
  deriving DecidableEq, Repr

/-- The registers of one shader. -/
structure RegisterFile where
  slotsPerBank : UInt32
  /-- The variables of the slots that were touched. -/
  slots : List (Slot × Ref) := []
  deriving DecidableEq, Repr

namespace RegisterFile

/-- Number of components of a bank's window. -/
def componentsPerBank (r : RegisterFile) : Except Fault UInt32 :=
  checkedMul r.slotsPerBank 4

/-- The variable of a slot, if it was touched. -/
def variableOf? (r : RegisterFile) (slot : Slot) : Option Ref :=
  r.slots.lookup slot

def insert (r : RegisterFile) (slot : Slot) (id : Ref) : RegisterFile :=
  { r with slots := (slot, id) :: r.slots }

/-- Whether a bank has storage for a component. -/
def inRange (r : RegisterFile) (bank : Bank) (component : UInt32) : Except Fault Bool :=
  if bank.isAddressable then return component < (← r.componentsPerBank) else return false

/-- The component that holds an element of an operand. -/
def componentOf (op : Operand) (element : UInt32) : Except Fault UInt32 :=
  checkedAdd op.index (element / op.encoding.lanesPerComponent)

/-- Whether all of some lanes can be loaded. Stops at the first that cannot. -/
def lanesInRange (r : RegisterFile) (op : Operand) : List (Fin 4) → Except Fault Bool
  | [] => return true
  | lane :: rest =>
    match (op.swizzle.channel lane).element? with
    | none => r.lanesInRange op rest
    | some element => do
      if ← r.inRange op.bank (← componentOf op element) then r.lanesInRange op rest
      else return false

/-- Whether loading the lanes of a mask would succeed. -/
def canLoad (r : RegisterFile) (op : Operand) (mask : LaneMask) : Except Fault Bool :=
  if mask.isEmpty then return false
  else if op.bank = .immediate then return true
  else r.lanesInRange op mask.lanes

end RegisterFile

/-- A module under construction and the registers that its body uses. -/
structure Emitter where
  builder : Builder := {}
  registers : RegisterFile
  deriving DecidableEq, Repr

/-- Actions that emit code for register accesses. -/
abbrev Emit := StateT Emitter (Except Fault)

instance : MonadLift Build Emit where
  monadLift action := fun ⟨builder, registers⟩ => do
    let (a, builder) ← action builder
    return (a, ⟨builder, registers⟩)

namespace Emit

open Build Lowering Number

/-! ## Components -/

/-- The variable of a slot, declared on first use. -/
def slotVariable (slot : Slot) : Emit Ref := do
  match (← get).registers.variableOf? slot with
  | some id => return id
  | none =>
    let vec4 ← floatVectorType 4
    let id ← variableOf .priv vec4
    modify fun s => { s with registers := s.registers.insert slot id }
    return id

/-- The raw bits of a component, typed as a float. -/
def loadComponent (bank : Bank) (window : UInt8) (component : UInt32) : Emit Ref := do
  let pointer ← slotVariable ⟨bank, window, component / 4⟩
  let slot ← Build.load pointer
  extract slot (component % 4)

def storeComponent (bank : Bank) (window : UInt8) (component : UInt32) (value : Ref) :
    Emit Unit := do
  let pointer ← slotVariable ⟨bank, window, component / 4⟩
  let slot ← Build.load pointer
  let updated ← Build.insert value slot (component % 4)
  Build.store pointer updated

/-- Whether the registers have storage for a component. -/
def inRange (bank : Bank) (component : UInt32) : Emit Bool := do
  (← get).registers.inRange bank component

/-! ## Loads -/

/-- One lane of an operand as a float. There is none if it cannot be addressed. -/
def loadLane (op : Operand) (window : UInt8) (lane : Fin 4) : OptionT Emit Ref := do
  let channel := op.swizzle.channel lane
  match channel.element? with
  | none => floatConstant (if channel = .one then Single.one else Single.zero)
  | some element =>
    if op.bank = .immediate then floatConstant (Single.ofUnsigned op.index)
    else
      let component ← RegisterFile.componentOf op element
      guard (← inRange op.bank component)
      let raw ← loadComponent op.bank window component
      unpackLane raw op.encoding (element % op.encoding.lanesPerComponent)

/-- The lanes of a mask as floats: a scalar for one lane, otherwise a vector. There is none if the
mask is empty or a lane cannot be addressed. -/
def loadWindow (op : Operand) (mask : LaneMask) (window : UInt8) : OptionT Emit Ref := do
  match ← mask.lanes.mapM (loadLane op window) with
  | [] => failure
  | [lane] => return lane
  | lanes => construct (← floatVectorType (.ofNat lanes.length)) lanes

/-- The lanes of a mask from the primary window. -/
def load (op : Operand) (mask : LaneMask) : OptionT Emit Ref :=
  loadWindow op mask Window.primary

/-! ## Stores -/

/-- The numbers that a value stores under an encoding: integers and fixed-point numbers are
converted, anything else is stored as it is. -/
def encodeValue (e : Encoding) (value : Ref) : Build Ref := do
  if e.isInteger && (← get).isFloat value then saturateTo value e
  else if e = .c10 then saturateFixed value
  else return value

/-- The bits of one lane of a packed encoding, as an unsigned integer. -/
def laneBits (e : Encoding) (value : Ref) : Build Ref := do
  let uint ← uintType 32
  if e = .f16 then
    let zero ← floatConstant Single.zero
    let pair ← construct (← floatVectorType 2) [value, zero]
    extInst uint .packHalf2x16 [pair]
  else bitcast uint value

/-- Replaces lane `lane` of a raw component by the low bits of an integer. -/
def mergeLane (e : Encoding) (raw bits : Ref) (lane : UInt32) : Build Ref := do
  let uint ← uintType 32
  let old ← bitcast uint raw
  let offset ← uintConstant (← checkedMul lane e.bits)
  let count ← uintConstant e.bits
  let merged ← emit .bitFieldInsert uint [old.word, bits.word, offset.word, count.word]
  bitcast (← floatType 32) merged

/-- Stores lane `lane` of an encoded value of `count` lanes; its last lane stands for those that it
lacks. -/
def storeLane (op : Operand) (encoded : Ref) (count : UInt32) (lane : UInt32) : Emit Unit := do
  let perComponent := op.encoding.lanesPerComponent
  let component ← RegisterFile.componentOf op lane
  if ← inRange op.bank component then
    let value ← if 1 < count then extract encoded (min lane (count - 1)) else pure encoded
    if perComponent = 1 then
      let float ← if (← get).builder.isFloat value then pure value
        else bitcast (← floatType 32) value
      storeComponent op.bank Window.primary component float
    else
      let bits ← laneBits op.encoding value
      let raw ← loadComponent op.bank Window.primary component
      let merged ← mergeLane op.encoding raw bits (lane % perComponent)
      storeComponent op.bank Window.primary component merged

/-- Stores the lanes of a mask, each to the element of its own number. -/
def store (op : Operand) (value : Ref) (mask : LaneMask) : Emit Unit := do
  unless mask.isEmpty do
    let count := (← get).builder.components value
    let encoded ← encodeValue op.encoding value
    let _ ← uintType 32
    let _ ← floatType 32
    mask.lanes.forM fun lane => storeLane op encoded count (.ofNat lane.val)

end Emit

end TextureLift
