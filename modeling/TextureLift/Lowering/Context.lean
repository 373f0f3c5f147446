import TextureLift.Lowering.RegisterFile
import TextureLift.Lowering.SamplerTable
import TextureLift.Shader.Failure
import TextureLift.Shader.Settings

/-!
# The context of one shader

Everything that lowering one shader changes: the module, the registers, the inputs declared so far,
the counters and the listing. Contexts share nothing.
-/

namespace TextureLift

/-- Counters of one program. -/
structure Stats where
  emitted : Nat := 0
  skipped : Nat := 0
  /-- Instructions that were dropped because they failed. -/
  failed : Nat := 0
  /-- Queries that were fetched. -/
  queries : Nat := 0
  deriving DecidableEq, Repr

/-- A lifted module. -/
structure LiftedModule where
  words : List UInt32
  stats : Stats
  /-- One line for each sample instruction that emitted code. -/
  listing : List String
  deriving DecidableEq, Repr

/-- The four bytes of a word, low ones first. -/
def wordBytes (w : UInt32) : List UInt8 :=
  [w.toUInt8, (w >>> 8).toUInt8, (w >>> 16).toUInt8, (w >>> 24).toUInt8]

/-- The module as it is written to files. -/
def LiftedModule.bytes (m : LiftedModule) : ByteArray :=
  ⟨(m.words.flatMap wordBytes).toArray⟩

/-- The state of lowering one shader. -/
structure Context extends Emitter where
  samplers : SamplerTable := {}
  /-- Input variables by location. -/
  inputs : WordMap Ref := ∅
  /-- The function that the code goes to. -/
  main : Ref
  abortOnFailure : Bool
  stats : Stats := {}
  listing : Array String := #[]

/-- Actions on the context of a shader. -/
abbrev Lower := StateT Context (Except Fault)

instance : MonadLift Emit Lower where
  monadLift action := fun context => do
    let (a, emitter) ← action context.toEmitter
    return (a, { context with toEmitter := emitter })

namespace Context

open Build

/-- The capability of modules for shaders. -/
def shaderCapability : UInt32 := 1

/-- The execution model of fragment shaders. -/
def fragmentModel : UInt32 := 4

/-- The mode in which fragment coordinates start at the upper left. -/
def originUpperLeft : UInt32 := 7

/-- Starts the module of a fragment shader and declares its samplers. -/
def start (settings : LiftSettings) (samplers : List SamplerDesc) : Except Fault Context := do
  let prologue : Build (SamplerTable × Ref) := do
    modify (·.addCapability shaderCapability)
    let _ ← importExtSet
    modify Builder.setMemoryModel
    let table ← SamplerTable.declare samplers
    return (table, ← beginFunction)
  let ((table, main), builder) ← prologue {}
  return {
    builder, main
    registers := { slotsPerBank := settings.registerSlots }
    samplers := table
    abortOnFailure := settings.abortOnFailure }

/-- Closes the function and writes the module. The entry point lists the inputs in ascending order
of their locations. -/
def finish (c : Context) : LiftedModule :=
  let entry : EntryPoint := ⟨fragmentModel, c.main, "main", c.inputs.values⟩
  let builder := c.builder.endFunction.addEntryPoint entry
    |>.addExecutionMode ⟨c.main, originUpperLeft⟩
  ⟨builder.words, c.stats, c.listing.toList⟩

end Context

namespace Lowering

open Build

/-- The input variable of a location: a vector of four floats, declared once. -/
def inputAt (location : UInt32) : Lower Ref := do
  match (← get).inputs[location]? with
  | some id => return id
  | none =>
    let vec4 ← floatVectorType 4
    let id ← variableOf .input vec4
    decorate id Decoration.location location
    modify fun c => { c with inputs := c.inputs.insert location id }
    return id

end Lowering

end TextureLift
