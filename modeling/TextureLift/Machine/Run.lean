import TextureLift.Machine.Eval

/-!
# Runs

A run executes the instructions of the body in order. It stops at the first instruction that is
refused, and then leaves what the instructions before it did. Values and memory outlive a run; the
list of samples starts anew with each.
-/

namespace TextureLift.Machine

/-- Image operand that gives the level of detail. -/
def lodBit : UInt32 := 2

/-- Image operand that gives the gradients. -/
def gradBit : UInt32 := 4

/-- The request of an image sample. -/
def sampleCall (m : Machine) (b : Builder) (i : Inst) : Except Stop SampleCall := do
  match ← m.operand b i 0 with
  | .image source =>
    let coord ← m.floats b i 1
    let call : SampleCall := { image := source, opcode := i.opcode, coord }
    if i.opcode = .imageSampleExplicitLod then
      let mask ← literal i 2
      if mask &&& lodBit ≠ 0 then
        return { call with lod := (← m.floats b i 3).head? }
      else if mask &&& gradBit ≠ 0 then
        return { call with grad := some (← m.floats b i 3, ← m.floats b i 4) }
    return call
  | _ => malformed i

/-- Executes one instruction. -/
def step (b : Builder) (texels : Texels) (m : Machine) (i : Inst) : Except Stop Machine := do
  match i.opcode with
  | .function | .functionEnd | .label | .ret => return m
  | .load =>
    let pointer ← expect i (i.operandRef? 0)
    return m.define i (m.read b pointer)
  | .store =>
    let pointer ← expect i (i.operandRef? 0)
    return m.write pointer (← m.operand b i 1)
  | .imageSampleImplicitLod | .imageSampleProjImplicitLod | .imageSampleExplicitLod =>
    let call ← m.sampleCall b i
    let texel := texels m.samples.size call
    return { m with samples := m.samples.push call }.define i (.lanes .f32 texel.lanes)
  | _ => return m.define i (← m.eval b i)

/-- Executes instructions until one is refused. -/
def steps (b : Builder) (texels : Texels) (m : Machine) : List Inst → Machine × Option Stop
  | [] => (m, none)
  | i :: rest =>
    match m.step b texels i with
    | .ok m => m.steps b texels rest
    | .error stop => (m, some stop)

/-- Executes the body of a module. -/
def run (b : Builder) (texels : Texels) (m : Machine) : Machine × Option Stop :=
  { m with samples := #[] }.steps b texels b.body.toList

end TextureLift.Machine
