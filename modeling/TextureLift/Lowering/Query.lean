import TextureLift.Lowering.Context
import TextureLift.Lowering.Fetch

/-!
# Queries

Queries are fetches that do not depend on the instruction stream. They are resolved against the
sampler table first and then emitted in order, ahead of the stream. A query whose sampler does not
exist emits nothing.
-/

namespace TextureLift

/-- A query ready to be emitted. -/
structure Query where
  sampler : UInt32
  coord : Coord
  storeEncoding : Option Encoding
  /-- The encoding that the sampler declares. -/
  samplerEncoding : Encoding
  /-- First component written in the primary attribute bank. -/
  destOffset : UInt32
  componentCount : UInt8
  divisorLane : Option UInt8
  deriving DecidableEq, Repr

/-- The encoding to store. -/
def Query.encoding (q : Query) : Encoding :=
  q.storeEncoding.getD q.samplerEncoding

namespace Lowering

/-- Declares the input of a query and looks up its sampler. -/
def resolveQuery (d : QueryDesc) : Lower Query := do
  let input ← inputAt d.coordLocation
  let sampler := (← get).samplers.get? d.sampler
  return {
    sampler := d.sampler
    coord := ⟨input, d.coordEncoding⟩
    storeEncoding := d.storeEncoding
    samplerEncoding := (sampler.map SamplerInfo.encoding).getD .f32
    destOffset := d.destOffset
    componentCount := (sampler.map SamplerInfo.componentCount).getD 4
    divisorLane := d.divisorLane }

/-- Emits the fetch of a query whose texture is known and stores the texel. -/
def emitQuery (texture : Ref) (q : Query) : Emit Unit := do
  let texel ← match q.divisorLane with
    | some lane => do
      let coord ← projectedCoord q.coord lane
      fetch texture ⟨coord, .f32⟩ q.encoding .projective
    | none => fetch texture q.coord q.encoding .implicit
  let dest : Operand := { bank := .primAttr, index := q.destOffset, encoding := q.encoding }
  Emit.store dest texel (.first q.componentCount)

/-- Emits queries in order and counts the fetches. -/
def emitQueries : List Query → Lower Nat
  | [] => return 0
  | q :: rest => do
    match (← get).samplers.get? q.sampler with
    | none => emitQueries rest
    | some sampler =>
      emitQuery sampler.id q
      return (← emitQueries rest) + 1

end Lowering

end TextureLift
