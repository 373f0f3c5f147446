import TextureLift.Instruction.Operands
import TextureLift.Machine.Basic
import TextureLift.Proofs.Semantics.Register
import TextureLift.Shader.Program

/-!
# What programs mean

The direct meaning of a program: its queries, then its instructions, each as a change of the
registers and a request for a texel. There is no module and no code here; `Program.exec` is what the
code of a lifted module is measured against. What the fields of an instruction stand for is spelled
out here as well, and the operands that listings and code are made from are shown to agree
(`Sample.coordSource_eq` and so on).
-/

namespace TextureLift

open Number

/-! ## Requests -/

/-- How the level of detail of a request is chosen. -/
inductive Detail where
  | implicit
  /-- Implicit, with the last lane of the coordinate as divisor. -/
  | projective
  | bias (level : UInt32)
  | gradient (dx dy : List UInt32)
  deriving DecidableEq, Repr

/-- The request for the texel of an image at a coordinate. -/
def Detail.request (image : Ref) (coord : List UInt32) : Detail → SampleCall
  | implicit => { image, opcode := .imageSampleImplicitLod, coord }
  | projective => { image, opcode := .imageSampleProjImplicitLod, coord }
  | bias level => { image, opcode := .imageSampleExplicitLod, coord, lod := some level }
  | gradient dx dy => { image, opcode := .imageSampleExplicitLod, coord, grad := some (dx, dy) }

@[simp] theorem Detail.coord_request (d : Detail) (image : Ref) (coord : List UInt32) :
    (d.request image coord).coord = coord := by
  cases d <;> rfl

/-- The registers and the requests made so far. -/
structure ShaderState where
  registers : Registers
  samples : List SampleCall := []

/-- What a program runs against. -/
structure Setting where
  texels : Texels
  /-- The images of the samplers, by index. -/
  image : UInt32 → Ref
  /-- The lanes of the inputs, by location. -/
  input : UInt32 → List UInt32
  /-- Slots in each window of a bank. -/
  slots : UInt32

/-- Requests a texel and writes its first `count` lanes to a destination. -/
def Setting.fetch (x : Setting) (s : ShaderState) (call : SampleCall) (dest : Operand) (count : Nat) :
    ShaderState where
  registers := dest.write x.slots s.registers count (x.texels s.samples.length call).lanes
  samples := s.samples ++ [call]

/-! ## Queries -/

/-- The sampler of an index: the last one that was declared. -/
def Program.sampler? (p : Program) (index : UInt32) : Option SamplerDesc :=
  p.samplers.reverse.find? (·.index = index)

namespace QueryDesc

/-- The coordinate that a query samples at: elements 0 and 1 and the divisor, all four lanes of an
input of floats, or the first lanes of a packed component. -/
def coord (q : QueryDesc) (input : List UInt32) : List UInt32 :=
  let element := q.coordEncoding.element input
  match q.divisorLane with
  | some lane => [element 0, element 1, element lane.toUInt32]
  | none =>
    if q.coordEncoding = .f32 then input
    else (List.range (min 2 q.coordEncoding.wordLanes.toNat)).map fun lane =>
      element (.ofNat lane)

def detail (q : QueryDesc) : Detail :=
  if q.divisorLane.isSome then .projective else .implicit

/-- The components of the primary attribute bank that receive the texel. -/
def dest (q : QueryDesc) (declared : Encoding) : Operand where
  bank := .primAttr
  index := q.destOffset
  encoding := q.storeEncoding.getD declared

/-- Executes a query. Queries of samplers that are not declared do nothing. -/
def exec (q : QueryDesc) (x : Setting) (p : Program) (s : ShaderState) : ShaderState :=
  match p.sampler? q.sampler with
  | none => s
  | some d =>
    let call := q.detail.request (x.image q.sampler) (q.coord (x.input q.coordLocation))
    x.fetch s call (q.dest d.encoding) d.componentCount.toNat

end QueryDesc

/-! ## Fields of instructions -/

namespace Sample

/-- The encoding of the coordinate and of the level of detail. -/
def sourceEncoding (s : Sample) : Encoding :=
  if s.coordEncoding.toNat % 4 = 0 then .f32
  else if s.coordEncoding.toNat % 4 = 1 then .f16
  else .c10

/-- The bank that the selector of source 0 names. The flag selects the second half of the banks. -/
def coordSourceBank (extended : Bool) (selector : UInt8) : Bank :=
  [Bank.temp, .primAttr, .output, .secAttr].getD
    (selector.toNat % 2 + if extended then 2 else 0) .temp

/-- The bank that the selector of source 1 or 2 names. -/
def sourceBank (extended : Bool) (selector : UInt8) : Bank :=
  [Bank.temp, .output, .primAttr, .secAttr, .fpInternal, .special, .indexed1, .immediate].getD
    (selector.toNat % 4 + if extended then 4 else 0) .temp

/-- Indices count pairs of components, but for special registers and immediates. -/
def sourceIndex (bank : Bank) (index : UInt8) : UInt32 :=
  if bank = .special ∨ bank = .immediate then index.toUInt32 else 2 * index.toUInt32

/-- Where the coordinate is. -/
def coordSource (s : Sample) : Operand where
  bank := coordSourceBank s.coordExtended s.coordBank
  index := 2 * s.coordIndex.toUInt32
  encoding := s.sourceEncoding
  extended := s.coordExtended

/-- Where the bias or the gradients are. -/
def lodSource (s : Sample) : Operand where
  bank := sourceBank s.lodExtended s.lodBank
  index := sourceIndex (sourceBank s.lodExtended s.lodBank) s.lodIndex
  encoding := s.sourceEncoding
  extended := s.lodExtended

/-- The index of the sampler. -/
def samplerNumber (s : Sample) : UInt32 :=
  sourceIndex (sourceBank s.samplerExtended s.samplerBank) s.samplerIndex

/-- Where the texel goes, for a sampler of the given encoding. -/
def destination (s : Sample) (declared : Encoding) : Operand where
  bank := if s.destPrimAttr then .primAttr else .temp
  index := s.destIndex.toUInt32
  encoding :=
    if s.destFormat.toNat % 4 = 1 then declared
    else if s.destFormat.toNat % 4 = 2 then .f16
    else .f32

/-! ## Instructions -/

/-- Number of coordinates. -/
def rank (s : Sample) : Nat :=
  s.dimension.toNat + 1

/-- The lanes that the level of detail is read from: none, a bias or gradients. -/
def detailLanes (s : Sample) : List (Fin 4) :=
  if s.lodMode.toNat % 4 = 2 then [0]
  else if s.lodMode.toNat % 4 = 3 then if s.rank = 3 then [0, 1, 2] else [0, 1, 2, 3]
  else []

/-- The lanes that the coordinate is read from. -/
def coordLanes (s : Sample) : List (Fin 4) :=
  [0, 1, 2].take s.rank

/-- Whether an instruction with a declared sampler takes effect. A level of detail that replaces the
implicit one is not supported, nor is the third of the store modes. -/
def takesEffect (s : Sample) (slots : UInt32) : Bool :=
  s.rank ≤ 3 && (s.storeMode == 0 || s.storeMode == 1 || s.storeMode == 3) &&
    s.lodMode.toNat % 4 != 1 &&
    s.coordSource.readable slots s.coordLanes && s.lodSource.readable slots s.detailLanes

/-- The coordinate that an instruction samples at. With one dimension, it is in the first row. -/
def coord (s : Sample) (r : Registers) : List UInt32 :=
  let lanes := s.coordSource.read r Window.primary s.coordLanes
  if s.rank = 1 then lanes ++ [Single.zero] else lanes

/-- The level of detail of an instruction. With three dimensions, the second gradient comes from the
alternate window. -/
def detail (s : Sample) (r : Registers) : Detail :=
  let read := s.lodSource.read r
  if s.lodMode.toNat % 4 = 2 then .bias (s.lodSource.readLane r Window.primary 0)
  else if s.lodMode.toNat % 4 = 3 then
    if s.rank = 3 then
      .gradient (read Window.primary [0, 1, 2]) (read Window.alternate [0, 1, 2])
    else .gradient (read Window.primary [0, 1]) (read Window.primary [2, 3])
  else .implicit

/-- Executes a sample instruction. -/
def exec (i : Sample) (x : Setting) (p : Program) (s : ShaderState) : ShaderState :=
  match p.sampler? i.samplerNumber with
  | none => s
  | some d =>
    if i.takesEffect x.slots then
      let image := x.image i.samplerNumber
      let call := (i.detail s.registers).request image (i.coord s.registers)
      x.fetch s call (i.destination d.encoding) d.componentCount.toNat
    else s

/-! ## Operands that are decoded -/

variable (s : Sample)

theorem toNat_and_three (selector : UInt8) : (selector &&& 3).toNat = selector.toNat % 4 := by
  rw [UInt8.toNat_and]
  exact Nat.and_two_pow_sub_one_eq_mod selector.toNat 2

theorem selector_cases (selector : UInt8) : selector.toNat % 4 = 0 ∨ selector.toNat % 4 = 1 ∨
    selector.toNat % 4 = 2 ∨ selector.toNat % 4 = 3 := by
  omega

theorem sourceEncoding_eq : s.sourceEncoding = .ofCoordinateSelector s.coordEncoding := by
  unfold sourceEncoding Encoding.ofCoordinateSelector
  rw [toNat_and_three]
  rcases selector_cases s.coordEncoding with h | h | h | h <;> rw [h] <;> rfl

theorem coordSourceBank_eq (extended : Bool) (selector : UInt8) :
    coordSourceBank extended selector = .ofCoordSelector extended selector := by
  have hbit : (selector &&& 1).toNat = selector.toNat % 2 := by
    rw [UInt8.toNat_and]
    exact Nat.and_one_is_mod selector.toNat
  unfold coordSourceBank Bank.ofCoordSelector
  rw [hbit]
  rcases Nat.mod_two_eq_zero_or_one selector.toNat with h | h <;> rw [h] <;> cases extended <;> rfl

theorem sourceBank_eq (extended : Bool) (selector : UInt8) :
    sourceBank extended selector = .ofSelector extended selector := by
  unfold sourceBank Bank.ofSelector
  rw [toNat_and_three]
  rcases selector_cases selector with h | h | h | h <;> rw [h] <;> cases extended <;> rfl

theorem two_mul_eq_shiftLeft (index : UInt32) : (2 * index : UInt32) = index <<< (1 : UInt32) := by
  rw [← UInt32.toNat_inj, UInt32.toNat_mul, UInt32.toNat_shiftLeft, Nat.shiftLeft_eq, Nat.mul_comm]
  rfl

theorem sourceIndex_eq (bank : Bank) (index : UInt8) :
    sourceIndex bank index = bank.pairIndex index.toUInt32 := by
  unfold sourceIndex Bank.pairIndex
  cases bank <;> simp [two_mul_eq_shiftLeft]

/-- The coordinate is in the operand of source 0. -/
theorem coordSource_eq : s.coordSource = s.coordOperand := by
  have hindex : 2 * s.coordIndex.toUInt32 =
      (Bank.ofCoordSelector s.coordExtended s.coordBank).pairIndex s.coordIndex.toUInt32 := by
    rw [two_mul_eq_shiftLeft]
    unfold Bank.ofCoordSelector
    split <;> rfl
  unfold coordSource
  rw [coordSourceBank_eq, sourceEncoding_eq, hindex]
  rfl

theorem lodSource_eq : s.lodSource = s.lodOperand := by
  unfold lodSource
  rw [sourceIndex_eq, sourceBank_eq, sourceEncoding_eq]
  rfl

theorem samplerNumber_eq : s.samplerNumber = s.samplerOperand.index := by
  unfold samplerNumber
  rw [sourceIndex_eq, sourceBank_eq]
  rfl

theorem destination_eq (declared : Encoding) : s.destination declared = s.destOperand declared := by
  unfold destination destOperand DestFormat.ofSelector
  rw [toNat_and_three]
  rcases selector_cases s.destFormat with h | h | h | h <;> rw [h] <;> rfl

/-! ### Modes -/

variable {s}

/-- The level-of-detail mode and its selector. -/
theorem lodMode_cases (s : Sample) :
    (LodMode.ofSelector s.lodMode = .implicit ∧ s.lodMode.toNat % 4 = 0) ∨
    (LodMode.ofSelector s.lodMode = .replace ∧ s.lodMode.toNat % 4 = 1) ∨
    (LodMode.ofSelector s.lodMode = .bias ∧ s.lodMode.toNat % 4 = 2) ∨
    (LodMode.ofSelector s.lodMode = .gradient ∧ s.lodMode.toNat % 4 = 3) := by
  unfold LodMode.ofSelector
  rw [toNat_and_three]
  rcases selector_cases s.lodMode with h | h | h | h <;> simp [h]

theorem replace_iff : LodMode.ofSelector s.lodMode = .replace ↔ s.lodMode.toNat % 4 = 1 := by
  rcases s.lodMode_cases with ⟨hm, hn⟩ | ⟨hm, hn⟩ | ⟨hm, hn⟩ | ⟨hm, hn⟩ <;> simp [hm, hn]

end Sample

/-! ## Programs -/

/-- Executes an instruction word. Words that are no sample instructions do nothing. -/
def execWord (x : Setting) (p : Program) (s : ShaderState) (word : UInt64) : ShaderState :=
  match Sample.decode? word with
  | some i => i.exec x p s
  | none => s

/-- Executes a program: the queries in order, then the instructions. -/
def Program.exec (p : Program) (x : Setting) (r : Registers) : ShaderState :=
  let queried := p.queries.foldl (fun s q => q.exec x p s) { registers := r }
  p.instructions.foldl (execWord x p) queried

end TextureLift
