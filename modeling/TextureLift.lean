import TextureLift.Command.Arguments
import TextureLift.Command.Files
import TextureLift.Command.Path
import TextureLift.Command.Run
import TextureLift.Fault
import TextureLift.Instruction.Field
import TextureLift.Instruction.Listing
import TextureLift.Instruction.Operands
import TextureLift.Instruction.Sample
import TextureLift.Job.Basic
import TextureLift.Job.Word
import TextureLift.Lowering.Context
import TextureLift.Lowering.Fetch
import TextureLift.Lowering.Query
import TextureLift.Lowering.RegisterFile
import TextureLift.Lowering.Sample
import TextureLift.Lowering.SamplerTable
import TextureLift.Lowering.Saturate
import TextureLift.Lowering.Unpack
import TextureLift.Machine.Basic
import TextureLift.Machine.Eval
import TextureLift.Machine.Run
import TextureLift.Machine.Value
import TextureLift.Main
import TextureLift.Module.Build
import TextureLift.Module.Builder
import TextureLift.Module.Inst
import TextureLift.Module.Literal
import TextureLift.Module.Opcode
import TextureLift.Module.TypeDecl
import TextureLift.Number.Binary
import TextureLift.Number.BitField
import TextureLift.Number.Half
import TextureLift.Number.Single
import TextureLift.Operand.Basic
import TextureLift.Operand.Encoding
import TextureLift.Operand.Lane
import TextureLift.Proofs.Action
import TextureLift.Proofs.Instruction.Word
import TextureLift.Proofs.Job.Word
import TextureLift.Proofs.Lowering.Access
import TextureLift.Proofs.Lowering.Alternate
import TextureLift.Proofs.Lowering.Aside
import TextureLift.Proofs.Lowering.Atomicity
import TextureLift.Proofs.Lowering.Computation
import TextureLift.Proofs.Lowering.Conversion
import TextureLift.Proofs.Lowering.Coordinate
import TextureLift.Proofs.Lowering.Correctness
import TextureLift.Proofs.Lowering.Declaration
import TextureLift.Proofs.Lowering.Demand
import TextureLift.Proofs.Lowering.Emission
import TextureLift.Proofs.Lowering.Fetch
import TextureLift.Proofs.Lowering.Foresight
import TextureLift.Proofs.Lowering.Frame
import TextureLift.Proofs.Lowering.Instruction
import TextureLift.Proofs.Lowering.Isolation
import TextureLift.Proofs.Lowering.Launch
import TextureLift.Proofs.Lowering.Ledger
import TextureLift.Proofs.Lowering.Parting
import TextureLift.Proofs.Lowering.Passage
import TextureLift.Proofs.Lowering.Plan
import TextureLift.Proofs.Lowering.Progress
import TextureLift.Proofs.Lowering.Reading
import TextureLift.Proofs.Lowering.Reckoning
import TextureLift.Proofs.Lowering.Register
import TextureLift.Proofs.Lowering.Sample
import TextureLift.Proofs.Lowering.SamplerTable
import TextureLift.Proofs.Lowering.Saturate
import TextureLift.Proofs.Lowering.Shader
import TextureLift.Proofs.Lowering.Slots
import TextureLift.Proofs.Lowering.Store
import TextureLift.Proofs.Lowering.Stream
import TextureLift.Proofs.Lowering.Texel
import TextureLift.Proofs.Lowering.Transfer
import TextureLift.Proofs.Lowering.Unpack
import TextureLift.Proofs.Lowering.Variables
import TextureLift.Proofs.Lowering.Writing
import TextureLift.Proofs.Machine.BitField
import TextureLift.Proofs.Machine.Flow
import TextureLift.Proofs.Machine.Growth
import TextureLift.Proofs.Machine.Requests
import TextureLift.Proofs.Machine.Reuse
import TextureLift.Proofs.Machine.Robust
import TextureLift.Proofs.Machine.Soundness
import TextureLift.Proofs.Machine.Step
import TextureLift.Proofs.Module.Binary
import TextureLift.Proofs.Module.Calls
import TextureLift.Proofs.Module.Catalog
import TextureLift.Proofs.Module.Interning
import TextureLift.Proofs.Module.Lanes
import TextureLift.Proofs.Module.Literal
import TextureLift.Proofs.Module.Order
import TextureLift.Proofs.Module.Scope
import TextureLift.Proofs.Module.Table
import TextureLift.Proofs.Number.BitField
import TextureLift.Proofs.Number.Exact
import TextureLift.Proofs.Number.Rounding
import TextureLift.Proofs.Number.Saturation
import TextureLift.Proofs.Semantics.Field
import TextureLift.Proofs.Semantics.Lane
import TextureLift.Proofs.Semantics.Program
import TextureLift.Proofs.Semantics.Register
import TextureLift.Proofs.Semantics.Window
import TextureLift.Proofs.Shader.Abort
import TextureLift.Proofs.Shader.Accounting
import TextureLift.Proofs.Shader.Cache
import TextureLift.Proofs.Shader.Coordinates
import TextureLift.Proofs.Shader.Faults
import TextureLift.Proofs.Shader.Interface
import TextureLift.Proofs.Shader.Lifter
import TextureLift.Proofs.Shader.RoundTrip
import TextureLift.Settings
import TextureLift.Shader.Failure
import TextureLift.Shader.Lift
import TextureLift.Shader.Lifter
import TextureLift.Shader.Program
import TextureLift.Shader.Settings
import TextureLift.Text.Blank
import TextureLift.Text.Digit
import TextureLift.Text.Plain
import TextureLift.Text.Quoted
import TextureLift.Toml.Character
import TextureLift.Toml.Document
import TextureLift.Toml.Literal
import TextureLift.Toml.Number
import TextureLift.Toml.Quote
import TextureLift.Toml.Record
import TextureLift.Toml.Value
