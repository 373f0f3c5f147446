import TextureLift.Job.Word
import TextureLift.Shader.Program
import TextureLift.Text.Quoted
import TextureLift.Toml.Document
import TextureLift.Toml.Record

/-!
# Jobs

A job document describes one shader: the instruction words as text, samplers and queries, and where
the module goes. `Job.parse?` reads a document, `Job.program` reads the words.
-/

namespace TextureLift

/-- A shader to lift, with the words as the document spells them. -/
structure Job where
  /-- The file to write the module to. -/
  output : Option String := none
  instructions : List String := []
  samplers : List SamplerDesc := []
  queries : List QueryDesc := []
  deriving DecidableEq, Repr

/-- An instruction that is not a word. -/
structure BadWord where
  position : Nat
  text : String
  deriving DecidableEq, Repr

def BadWord.message (e : BadWord) : String :=
  "Invalid job: instruction " ++ e.position.repr ++ ": bad word " ++ Text.quote e.text

def Encoding.read (v : Toml.Value) : Option Encoding := do
  ofKeyword? (← v.name?)

def SamplerDesc.read (v : Toml.Value) : Option SamplerDesc := do
  let r ← v.record?
  return {
    index := ← r.required 0 "index" (·.uint32?)
    componentCount := ← r.required 1 "component_count" (·.uint8?)
    encoding := ← r.required 2 "component_type" Encoding.read
    dimension := ← r.defaulted 3 "dim" 2 (·.uint8?) }

def QueryDesc.read (v : Toml.Value) : Option QueryDesc := do
  let r ← v.record?
  return {
    sampler := ← r.required 0 "sampler" (·.uint32?)
    coordLocation := ← r.required 1 "coord_location" (·.uint32?)
    coordEncoding := ← r.defaulted 2 "coord_type" .f32 Encoding.read
    storeEncoding := ← r.optional 3 "store_type" Encoding.read
    destOffset := ← r.required 4 "dest_offset" (·.uint32?)
    divisorLane := ← r.optional 5 "proj_pos" (·.uint8?) }

namespace Job

/-- Reads a job document. -/
def parse? (text : String) : Option Job := do
  let r := Toml.Record.named (← Toml.parse? text)
  return {
    output := ← r.optional 0 "output" (·.string?)
    instructions := ← r.defaulted 1 "instructions" [] (·.list? (·.string?))
    samplers := ← r.defaulted 2 "samplers" [] (·.list? SamplerDesc.read)
    queries := ← r.defaulted 3 "queries" [] (·.list? QueryDesc.read) }

/-- The program with its words read; the first bad one is reported. -/
def program (j : Job) : Except BadWord Program := do
  let instructions ← j.instructions.zipIdx.mapM fun (text, position) =>
    match word? text with
    | some word => .ok word
    | none => .error ⟨position, text⟩
  return { instructions, samplers := j.samplers, queries := j.queries }

end Job

end TextureLift
