import TextureLift.Machine.Basic
import TextureLift.Module.Build
import TextureLift.Shader.Program

/-!
# The table of samplers

Every sampler that a program declares becomes a variable that holds an image, bound to the sampler's
index. The table maps indices to these variables; the last declaration of an index counts.
-/

namespace TextureLift

/-- A declared sampler. -/
structure SamplerInfo where
  /-- The variable that holds the image. -/
  id : Ref
  /-- Number of components of a texel, one to four. -/
  componentCount : UInt8
  encoding : Encoding
  dimension : UInt8
  deriving DecidableEq, Repr

/-- Samplers by index. -/
structure SamplerTable where
  entries : WordMap SamplerInfo := ∅

namespace SamplerTable

open Build

def get? (t : SamplerTable) (index : UInt32) : Option SamplerInfo :=
  t.entries[index]?

def insert (t : SamplerTable) (index : UInt32) (info : SamplerInfo) : SamplerTable :=
  ⟨t.entries.insert index info⟩

/-- The entries in ascending order of their indices. -/
def toList (t : SamplerTable) : List (UInt32 × SamplerInfo) :=
  t.entries.toList

def size (t : SamplerTable) : Nat :=
  t.entries.size

/-- The image of a sampler. There are no images of one dimension: such samplers use a row of an
image of two. -/
def imageDim (dimension : UInt8) : ImageDim :=
  if 3 ≤ dimension then .three else .two

/-- A number of components, brought into the range one to four. -/
def clampCount (count : UInt8) : UInt8 :=
  max 1 (min count 4)

/-- Declares the variable of one sampler. -/
def declareOne (float : Ref) (d : SamplerDesc) : Build SamplerInfo := do
  let image ← type (.image float (imageDim d.dimension))
  let sampledImage ← type (.sampledImage image)
  let id ← variableOf .uniformConstant sampledImage
  decorate id Decoration.binding d.index
  decorate id Decoration.descriptorSet 0
  return ⟨id, clampCount d.componentCount, d.encoding, d.dimension⟩

/-- Declares the variables of some samplers in order. -/
def declare (descs : List SamplerDesc) : Build SamplerTable := do
  let float ← floatType 32
  descs.foldlM (fun table d => return table.insert d.index (← declareOne float d)) {}

end SamplerTable

end TextureLift
