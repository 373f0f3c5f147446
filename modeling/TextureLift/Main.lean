import TextureLift.Command.Run

/-!
# The program

The command on the files of the system.
-/

namespace TextureLift.Command

/-- The number of a system error, which some operations report with the sign changed. -/
def systemNumber (code : UInt32) : UInt32 :=
  min code (-code)

/-- What a system error says about a file. -/
def FileError.ofSystem : IO.Error → FileError
  | .noFileOrDirectory .. => notFound
  | .alreadyExists .. => alreadyExists
  | .inappropriateType _ code _ => if systemNumber code = 20 then notDirectory else isDirectory
  | .invalidArgument _ code _ => if systemNumber code = 36 then nameTooLong else invalidName
  | e => other (toString e)

/-- Runs an action and keeps its error. -/
def attempt {α : Type} (action : IO α) : IO (Except FileError α) := do
  try return .ok (← action)
  catch e => return .error (.ofSystem e)

/-- The files of the system. -/
def systemFiles : Files IO where
  readText path := do
    match ← attempt (IO.FS.readBinFile path) with
    | .error e => return .error e
    | .ok contents =>
      match String.fromUTF8? contents with
      | some text => return .ok text
      | none => return .error .notText
  write path contents := attempt (IO.FS.writeBinFile path contents)
  makeDirectory path := attempt (IO.FS.createDir path)
  isDirectory path := do
    try (← IO.FS.realPath path).isDir
    catch _ => return false

def usage : String :=
  "\n".intercalate [
    "Usage: usse-spirv [OPTIONS] <JOB>",
    "",
    "Arguments:",
    "  <JOB>  Job file (TOML: instruction words, samplers, queries)",
    "",
    "Options:",
    "  -o, --output <PATH>  Output module path",
    "  -c, --config <PATH>  Settings; a missing file means defaults [default: usse-spirv.toml]",
    "  -h, --help           Print help",
    ""]

end TextureLift.Command

open TextureLift.Command in
def main (arguments : List String) : IO UInt32 := do
  let outcome ← run systemFiles arguments
  match outcome with
  | .help => IO.print usage
  | .misuse => IO.eprint usage
  | _ => if let some report := outcome.report? then IO.eprintln report
  return outcome.exitCode
