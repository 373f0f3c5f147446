import TextureLift.Lowering.Query
import TextureLift.Lowering.Sample

/-!
# Lifting programs

`lower` lifts one program into a module: the queries first, then the instruction stream. An
instruction that fails is dropped, or ends the lifting if the settings say so.
-/

namespace TextureLift

namespace Lowering

/-- Lowers one instruction word. -/
def lowerWord (word : UInt64) : ExceptT Failure Lower Outcome :=
  match Sample.decode? word with
  | some s => lowerSample s
  | none => return .skipped (.unknown word)

/-- Counts what became of an instruction. -/
def count (stats : Stats) : Except Failure Outcome → Stats
  | .ok .emitted => { stats with emitted := stats.emitted + 1 }
  | .ok (.skipped _) => { stats with skipped := stats.skipped + 1 }
  | .error _ => { stats with failed := stats.failed + 1 }

/-- Lowers a stream of words, the first of which has the given position. -/
def lowerWordsFrom (position : Nat) : List UInt64 → Lower (Except Failure Unit)
  | [] => return .ok ()
  | word :: rest => do
    let outcome ← (lowerWord word).run
    match outcome, (← get).abortOnFailure with
    | .error cause, true => return .error (.instruction position cause)
    | _, _ =>
      modify fun c => { c with stats := count c.stats outcome }
      lowerWordsFrom (position + 1) rest

/-- Lowers a stream of words and returns the counters of the context. -/
def lowerWords (words : List UInt64) : Lower (Except Failure Stats) := do
  let result ← lowerWordsFrom 0 words
  let stats := (← get).stats
  return result.map fun () => stats

/-- Lowers the queries and the instructions of a program. -/
def lowerProgram (p : Program) : Lower (Except Failure Stats) := do
  let queries ← p.queries.mapM resolveQuery
  let fetched ← emitQueries queries
  modify fun c => { c with stats := { c.stats with queries := fetched } }
  lowerWords p.instructions

end Lowering

/-- Lifts a program without looking at its defects. -/
def lower (settings : LiftSettings) (p : Program) : Except Fault (Except Failure LiftedModule) := do
  let context ← Context.start settings p.samplers
  let (result, context) ← Lowering.lowerProgram p context
  return result.map fun _ => context.finish

end TextureLift
