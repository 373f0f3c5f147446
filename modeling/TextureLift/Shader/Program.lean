import TextureLift.Operand.Encoding

/-!
# Programs

A program is a stream of instruction words with the samplers it uses and the queries that are
fetched before the stream starts. `Program.defect?` finds what makes a program unacceptable.
-/

namespace TextureLift

/-- A sampler as the program declares it. -/
structure SamplerDesc where
  /-- The register index that sample instructions name it by. -/
  index : UInt32
  componentCount : UInt8
  encoding : Encoding
  /-- Number of coordinates. -/
  dimension : UInt8 := 2
  deriving DecidableEq, Repr

/-- A fetch that does not depend on the instruction stream. -/
structure QueryDesc where
  sampler : UInt32
  /-- Location of the input that holds the coordinate. -/
  coordLocation : UInt32
  coordEncoding : Encoding := .f32
  /-- The encoding to store; the sampler's own one if there is none. -/
  storeEncoding : Option Encoding := none
  /-- First component written. -/
  destOffset : UInt32
  /-- The coordinate lane to divide by. -/
  divisorLane : Option UInt8 := none
  deriving DecidableEq, Repr

/-- A shader to lift. -/
structure Program where
  instructions : List UInt64 := []
  samplers : List SamplerDesc := []
  queries : List QueryDesc := []
  deriving DecidableEq, Repr

/-- What makes a program unacceptable. -/
inductive Defect where
  | dimension (sampler : UInt32) (dimension : UInt8)
  | components (sampler : UInt32) (count : UInt8)
  | divisor (query : Nat) (lane : UInt8)
  deriving DecidableEq, Repr

def Defect.message : Defect → String
  | dimension sampler d =>
    "sampler " ++ sampler.toNat.repr ++ " has dimensionality " ++ d.toNat.repr
  | components sampler count =>
    "sampler " ++ sampler.toNat.repr ++ " has " ++ count.toNat.repr ++ " components"
  | divisor query lane =>
    "query " ++ query.repr ++ " projects from lane " ++ lane.toNat.repr

/-- Samplers have one to three dimensions and one to four components. -/
def SamplerDesc.defect? (d : SamplerDesc) : Option Defect :=
  if d.dimension < 1 ∨ 3 < d.dimension then some (.dimension d.index d.dimension)
  else if d.componentCount < 1 ∨ 4 < d.componentCount then
    some (.components d.index d.componentCount)
  else none

/-- The divisor of the query at a position is one of four lanes. -/
def QueryDesc.defect? (q : QueryDesc) (position : Nat) : Option Defect :=
  match q.divisorLane with
  | some lane => if 3 < lane then some (.divisor position lane) else none
  | none => none

/-- The first defect: samplers first, each list in order. -/
def Program.defect? (p : Program) : Option Defect :=
  (p.samplers.findSome? SamplerDesc.defect?).or
    (p.queries.zipIdx.findSome? fun (q, position) => q.defect? position)

end TextureLift
