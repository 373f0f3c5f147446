import TextureLift.Instruction.Listing
import TextureLift.Lowering.Context
import TextureLift.Lowering.Fetch

/-!
# Lowering sample instructions

A sample instruction is checked before anything is emitted. Modes that are not supported and samplers
that do not exist skip it; a coordinate or level-of-detail operand that cannot be loaded makes it
fail, even if its store mode would have skipped it. An instruction that passes adds a line to the
listing, loads its operands, fetches the texel and stores it.
-/

namespace TextureLift

/-- Why an instruction was skipped. -/
inductive SkipReason where
  /-- Replacing the level of detail is not supported. -/
  | lodReplace
  /-- No sampler has this index. -/
  | missingSampler (index : UInt32)
  /-- The dimension field is above two. -/
  | dimension (raw : UInt8)
  /-- The store mode is not 0, 1 or 3. -/
  | storeMode (mode : UInt8)
  /-- The word is no sample instruction. -/
  | unknown (word : UInt64)
  deriving DecidableEq, Repr

/-- What became of an instruction. -/
inductive Outcome where
  | emitted
  | skipped (reason : SkipReason)
  deriving DecidableEq, Repr

/-- A sample instruction that passed all checks. -/
structure SamplePlan where
  sampler : SamplerInfo
  lodMode : LodMode
  /-- What the listing shows, operands and masks included. -/
  line : ListingLine

/-- What the checks of an instruction found. -/
inductive Verdict where
  | fails (failure : Failure)
  | skips (reason : SkipReason)
  | passes (plan : SamplePlan)

namespace Lowering

open Build Number

/-- The lanes of the coordinate. Dimensions that are not known use two. -/
def coordMask (dimension : UInt8) : LaneMask :=
  if dimension = 1 ∨ dimension = 3 then .first dimension else .first 2

/-- The lanes of the level-of-detail operand. -/
def lodMask (mode : LodMode) (dimension : UInt8) : LaneMask :=
  if mode = .bias then .first 1 else if dimension = 3 then .first 3 else .first 4

/-- Whether a store mode is supported. -/
def storeModeSupported (mode : UInt8) : Bool :=
  mode == 0 || mode == 1 || mode == 3

/-- Completes a plan with the level-of-detail operand and checks the store mode. -/
def planStore (s : Sample) (p : SamplePlan) (lod : Option (Operand × LaneMask)) : Verdict :=
  if storeModeSupported s.storeMode then .passes { p with line := { p.line with lod } }
  else .skips (.storeMode s.storeMode)

/-- Checks the level-of-detail operand, if there is one, and the store mode. -/
def planLod (r : RegisterFile) (s : Sample) (p : SamplePlan) : Except Fault Verdict := do
  if p.lodMode = .implicit then return planStore s p none
  else
    let mask := lodMask p.lodMode p.line.dimension
    if ← r.canLoad s.lodOperand mask then return planStore s p (some (s.lodOperand, mask))
    else return .fails (.ofOperand s.lodOperand)

/-- Checks an instruction against the samplers and registers. Emits nothing. -/
def plan (samplers : SamplerTable) (r : RegisterFile) (s : Sample) : Except Fault Verdict := do
  let lodMode := LodMode.ofSelector s.lodMode
  if lodMode = .replace then return .skips .lodReplace
  else match samplers.get? s.samplerOperand.index with
    | none => return .skips (.missingSampler s.samplerOperand.index)
    | some sampler =>
      let dimension ← checkedSucc s.dimension
      let mask := coordMask dimension
      if ← r.canLoad s.coordOperand mask then
        if 2 < s.dimension then return .skips (.dimension s.dimension)
        else planLod r s {
          sampler, lodMode
          line := {
            predicate := .ofSelector s.predicate
            dimension
            dest := s.destOperand sampler.encoding
            destMask := .first sampler.componentCount
            coord := s.coordOperand
            coordMask := mask
            sampler := s.samplerOperand } }
      else return .fails (.ofOperand s.coordOperand)

/-- Loads an operand, or fails. -/
def loadOrFail (op : Operand) (mask : LaneMask) (window : UInt8) : ExceptT Failure Emit Ref := do
  match ← (Emit.loadWindow op mask window).run with
  | some id => return id
  | none => throw (.ofOperand op)

/-- The coordinate to sample at. There are no images of one dimension: the first row of an image of
two is sampled. -/
def loadCoord (line : ListingLine) : ExceptT Failure Emit Ref := do
  let coord ← loadOrFail line.coord line.coordMask Window.primary
  if line.dimension = 1 then
    let vec2 ← floatVectorType 2
    let zero ← floatConstant Single.zero
    construct vec2 [coord, zero]
  else return coord

/-- The gradients of an operand. With three dimensions the second comes from the alternate window of
the same registers. -/
def loadGradients (op : Operand) (dimension : UInt8) : ExceptT Failure Emit FetchLod := do
  let load := fun mask window => (Emit.loadWindow op mask window).run
  let (dx, dy) ← if dimension = 3 then do
      let dx ← load (.first 3) Window.primary
      let dy ← load (.first 3) Window.alternate
      pure (dx, dy)
    else do
      let dx ← load (.union (.single 0) (.single 1)) Window.primary
      let dy ← load (.union (.single 2) (.single 3)) Window.primary
      pure (dx, dy)
  match dx, dy with
  | some dx, some dy => return .gradient dx dy
  | _, _ => throw (.ofOperand op)

/-- The level of detail of a fetch. -/
def loadLod (mode : LodMode) (line : ListingLine) : ExceptT Failure Emit FetchLod := do
  match mode, line.lod with
  | .bias, some (op, _) => return .bias (← loadOrFail op (.single 0) Window.primary)
  | .gradient, some (op, _) => loadGradients op line.dimension
  | _, _ => return .implicit

/-- Emits the code of a checked instruction. -/
def emitSample (p : SamplePlan) : ExceptT Failure Emit Unit := do
  let coord ← loadCoord p.line
  let lod ← loadLod p.lodMode p.line
  let texel ← fetch p.sampler.id ⟨coord, .f32⟩ .f32 lod
  Emit.store p.line.dest texel p.line.destMask

/-- Lowers a sample instruction. -/
def lowerSample (s : Sample) : ExceptT Failure Lower Outcome := do
  let context ← get
  match ← plan context.samplers context.registers s with
  | .fails failure => throw failure
  | .skips reason => return .skipped reason
  | .passes p =>
    modify fun c => { c with listing := c.listing.push p.line.text }
    match ← (emitSample p).run with
    | .ok () => return .emitted
    | .error failure => throw failure

end Lowering

end TextureLift
