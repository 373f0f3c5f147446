/-!
# Command line arguments

The command takes one job file and two options, each with a value. Values are attached (`-ovalue`,
`-o=value`, `--output=value`) or stand in the next argument, and are never empty. No option is given
twice. Arguments are read from left to right, and the first that is wrong, or asks for help, decides.
-/

namespace TextureLift.Command

/-- What a run of the command works on. -/
structure Arguments where
  /-- The job document. -/
  job : String
  /-- Where to write the module, before what the job says. -/
  output : Option String := none
  /-- The settings document. -/
  settings : String := "usse-spirv.toml"
  deriving DecidableEq, Repr

/-- What the arguments ask for. -/
inductive Request where
  | run (arguments : Arguments)
  | help
  | misuse
  deriving DecidableEq, Repr

/-- The options with a value. -/
inductive Setting where
  | output
  | settings
  deriving DecidableEq, Repr

/-- An argument by itself. -/
inductive Token where
  /-- A name or a value. -/
  | plain (text : String)
  | option (setting : Setting) (value : Option String)
  | help
  /-- All that follows are names. -/
  | terminator
  | unknown
  deriving DecidableEq, Repr

namespace Token

/-- An option by its long name, with the value after the equality sign. -/
def long (name : List Char) (value : Option String) : Token :=
  match String.ofList name, value with
  | "output", value => option .output value
  | "config", value => option .settings value
  | "help", none => help
  | _, _ => unknown

/-- The value that is attached to an option of one letter. -/
def attached : List Char → Option String
  | [] => none
  | '=' :: value => some (.ofList value)
  | value => some (.ofList value)

def short (letter : Char) (rest : List Char) : Token :=
  match letter with
  | 'o' => option .output (attached rest)
  | 'c' => option .settings (attached rest)
  | 'h' => help
  | _ => unknown

/-- What an argument is. A lone hyphen is a name. -/
def ofString (s : String) : Token :=
  match s.toList with
  | ['-'] => plain s
  | ['-', '-'] => terminator
  | '-' :: '-' :: rest =>
    long (rest.takeWhile (· != '=')) <|
      match rest.dropWhile (· != '=') with
      | [] => none
      | _ :: value => some (.ofList value)
  | '-' :: letter :: rest => short letter rest
  | _ => plain s

end Token

/-- The arguments read so far. -/
structure Draft where
  job : Option String := none
  output : Option String := none
  settings : Option String := none

namespace Draft

/-- Takes a value if it is not empty and the first of its kind. -/
def fill (slot : Option String) (value : String) : Option String :=
  if slot.isNone && value != "" then some value else none

def addName (d : Draft) (name : String) : Option Draft := do
  return { d with job := ← fill d.job name }

def addValue (d : Draft) (setting : Setting) (value : String) : Option Draft := do
  match setting with
  | .output => return { d with output := ← fill d.output value }
  | .settings => return { d with settings := ← fill d.settings value }

/-- A job file has to be named. -/
def finish (d : Draft) : Request :=
  match d.job with
  | none => .misuse
  | some job =>
    let arguments : Arguments := { job, output := d.output }
    .run { arguments with settings := d.settings.getD arguments.settings }

/-- Reads names up to the end. -/
def readNames (d : Draft) : List String → Request
  | [] => d.finish
  | name :: rest =>
    match d.addName name with
    | some d => d.readNames rest
    | none => .misuse

/-- Reads arguments. The first of them may have to be the value of an option. -/
def read (d : Draft) : Option Setting → List String → Request
  | none, [] => d.finish
  | some _, [] => .misuse
  | some setting, argument :: rest =>
    match Token.ofString argument with
    | .plain value =>
      match d.addValue setting value with
      | some d => d.read none rest
      | none => .misuse
    | _ => .misuse
  | none, argument :: rest =>
    match Token.ofString argument with
    | .plain name =>
      match d.addName name with
      | some d => d.read none rest
      | none => .misuse
    | .option setting none => d.read (some setting) rest
    | .option setting (some value) =>
      match d.addValue setting value with
      | some d => d.read none rest
      | none => .misuse
    | .help => .help
    | .terminator => d.readNames rest
    | .unknown => .misuse

end Draft

/-- What some arguments ask for. -/
def Request.ofArguments (arguments : List String) : Request :=
  ({} : Draft).read none arguments

end TextureLift.Command
