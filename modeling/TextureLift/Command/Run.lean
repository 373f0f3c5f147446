import TextureLift.Command.Arguments
import TextureLift.Command.Files
import TextureLift.Job.Basic
import TextureLift.Settings
import TextureLift.Shader.Lifter

/-!
# The command

Reads settings and job, lifts the program, writes the module, and dumps what the settings ask for. The
first thing that goes wrong ends the run. It works on any file system.
-/

namespace TextureLift.Command

/-- What went wrong in a run. -/
inductive RunError where
  | loadingSettings (path : String)
  | loadingJob (path : String)
  | badWord (cause : BadWord)
  | lifting (path : String) (cause : Failure)
  | fault (cause : Fault)
  | writing (path : String) (cause : FileError)
  | creatingDumpDirectory (path : String) (cause : FileError)
  | dumping (cause : FileError)
  deriving DecidableEq, Repr

namespace RunError

/-- What was being done, or else what is wrong. Faults are reported where they arise. -/
def message? : RunError → Option String
  | loadingSettings path => some ("loading config " ++ path)
  | loadingJob path => some ("loading job " ++ path)
  | badWord cause => some cause.message
  | lifting path _ => some ("translating " ++ path)
  | fault _ => none
  | writing path _ => some ("writing " ++ path)
  | creatingDumpDirectory path _ => some ("creating dump directory " ++ path)
  | dumping cause => some cause.message

/-- What is said of an error, before a line feed. -/
def report? (e : RunError) : Option String :=
  e.message?.map ("Error: " ++ ·)

end RunError

/-- The first line of a text that a line feed follows. A carriage return before the line feed belongs
to the end of the line. -/
def firstLine (text : String) : String :=
  let line := text.toList.takeWhile (· != '\n')
  .ofList (if line.getLast? = some '\r' then line.dropLast else line)

/-- How the command ended. -/
inductive Outcome where
  | done
  | help
  | misuse
  | failed (cause : RunError)
  deriving DecidableEq, Repr

namespace Outcome

/-- The number that tells callers how the command ended. -/
def exitCode : Outcome → UInt32
  | done | help => 0
  | misuse => 2
  | failed (.fault _) => 101
  | failed _ => 1

def report? : Outcome → Option String
  | failed cause => cause.report?
  | _ => none

end Outcome

section

variable {m : Type → Type} [Monad m]

/-- An operation on files as a step of a run. -/
def orFail {α : Type} (action : m (Except FileError α)) (error : FileError → RunError) :
    ExceptT RunError m α :=
  ExceptT.mk do
    match ← action with
    | .ok a => return .ok a
    | .error e => return .error (error e)

/-- The settings at a path; those by default if nothing is there. -/
def loadSettings (files : Files m) (path : String) : ExceptT RunError m Settings := do
  match ← (files.readText path : m _) with
  | .ok text =>
    match Settings.parse? text with
    | some settings => return settings
    | none => throw (.loadingSettings path)
  | .error e => if e.isAbsence then return {} else throw (.loadingSettings path)

def loadJob (files : Files m) (path : String) : ExceptT RunError m Job := do
  let text ← orFail (files.readText path) fun _ => .loadingJob path
  match Job.parse? text with
  | some job => return job
  | none => throw (.loadingJob path)

/-- Lifts the program of a job. A single program needs no cache. -/
def liftJob (settings : LiftSettings) (path : String) (job : Job) :
    Except RunError LiftedModule := do
  match job.program with
  | .error e => throw (.badWord e)
  | .ok program =>
    let lifter : Lifter Unit := { settings }
    match lifter.lift (fun _ => ()) program with
    | .error e => throw (.fault e)
    | .ok (.error e, _) => throw (.lifting path e)
    | .ok (.ok lifted, _) => return lifted

/-- Writes module and listing under the stem of the job, as far as the settings ask for them. -/
def dump (files : Files m) (settings : DebugSettings) (stem : String) (lifted : LiftedModule) :
    ExceptT RunError m Unit := do
  let directory := settings.dumpPath
  orFail (files.createDirectories directory) (.creatingDumpDirectory directory)
  if settings.dumpModule then
    orFail (files.write (Path.join directory (stem ++ ".spv")) lifted.bytes) .dumping
  if settings.dumpListing then
    let listing := ("\n".intercalate lifted.listing).toUTF8
    orFail (files.write (Path.join directory (stem ++ ".disasm")) listing) .dumping

/-- One run. -/
def Arguments.run (files : Files m) (a : Arguments) : ExceptT RunError m Unit := do
  let settings ← loadSettings files a.settings
  let job ← loadJob files a.job
  let lifted ← liftJob settings.lift a.job job
  let output := (a.output.or job.output).getD (Path.withExtension a.job "spv")
  orFail (files.write output lifted.bytes) (.writing output)
  if settings.debug.dumpModule || settings.debug.dumpListing then
    dump files settings.debug (Path.stem a.job) lifted

/-- The whole command. -/
def run (files : Files m) (arguments : List String) : m Outcome := do
  match Request.ofArguments arguments with
  | .help => return .help
  | .misuse => return .misuse
  | .run a =>
    match ← (a.run files).run with
    | .ok () => return .done
    | .error e => return .failed e

end

end TextureLift.Command
