import TextureLift.Fault
import TextureLift.Shader.Settings
import TextureLift.Toml.Document
import TextureLift.Toml.Quote
import TextureLift.Toml.Record

/-!
# Settings

The settings document has a table for lifting and one for debugging. Both, and each of their fields,
may be missing. `Settings.parse?` reads a document and `Settings.render` writes one.
-/

namespace TextureLift

/-- How much is logged. -/
inductive LogLevel where
  | off
  | error
  | warn
  | info
  | debug
  | trace
  deriving DecidableEq, Repr

namespace LogLevel

/-- All levels, from nothing to everything. -/
def all : List LogLevel := [off, error, warn, info, debug, trace]

/-- The name in settings documents. -/
def keyword : LogLevel → String
  | off => "Off"
  | error => "Error"
  | warn => "Warn"
  | info => "Info"
  | debug => "Debug"
  | trace => "Trace"

def ofKeyword? (s : String) : Option LogLevel :=
  all.find? (·.keyword == s)

/-- The name in log filters. -/
def filter : LogLevel → String
  | off => "off"
  | error => "error"
  | warn => "warn"
  | info => "info"
  | debug => "debug"
  | trace => "trace"

end LogLevel

/-- What to log, and what to write beside the module. -/
structure DebugSettings where
  logLevel : LogLevel := .info
  /-- Write the listing. -/
  dumpListing : Bool := false
  /-- Write the module once more. -/
  dumpModule : Bool := false
  /-- The directory to write to. -/
  dumpPath : String := "shader_dump"
  deriving DecidableEq, Repr

structure Settings where
  lift : LiftSettings := {}
  debug : DebugSettings := {}
  deriving DecidableEq, Repr

def LogLevel.read (v : Toml.Value) : Option LogLevel := do
  ofKeyword? (← v.name?)

def LiftSettings.read (v : Toml.Value) : Option LiftSettings := do
  let r ← v.record?
  let initial : LiftSettings := {}
  return {
    abortOnFailure :=
      ← r.defaulted 0 "abort_shader_on_hard_failure" initial.abortOnFailure (·.boolean?)
    registerSlots := ← r.defaulted 1 "register_slots" initial.registerSlots (·.uint32?)
    cacheModules := ← r.defaulted 2 "shader_cache" initial.cacheModules (·.boolean?) }

def DebugSettings.read (v : Toml.Value) : Option DebugSettings := do
  let r ← v.record?
  let initial : DebugSettings := {}
  return {
    logLevel := ← r.defaulted 0 "log_level" initial.logLevel LogLevel.read
    dumpListing := ← r.defaulted 1 "dump_disasm" initial.dumpListing (·.boolean?)
    dumpModule := ← r.defaulted 2 "dump_shaders" initial.dumpModule (·.boolean?)
    dumpPath := ← r.defaulted 3 "dump_path" initial.dumpPath (·.string?) }

namespace Settings

/-- Reads a settings document. -/
def parse? (text : String) : Option Settings := do
  let r := Toml.Record.named (← Toml.parse? text)
  return {
    lift := ← r.defaulted 0 "translator" {} LiftSettings.read
    debug := ← r.defaulted 1 "debug" {} DebugSettings.read }

/-- A line with a key and the text of its value. -/
def renderPair (key value : String) : String :=
  key ++ " = " ++ value ++ "\n"

def renderBool (b : Bool) : String :=
  if b then "true" else "false"

/-- The text of a string, which has to be one that can be written. -/
def renderString (text : String) : Except Fault String :=
  match Toml.quote? text with
  | some quoted => .ok quoted
  | none => .error .overflow

/-- The settings document with every field. -/
def render (s : Settings) : Except Fault String := do
  let logLevel ← renderString s.debug.logLevel.keyword
  let dumpPath ← renderString s.debug.dumpPath
  return "[translator]\n"
    ++ renderPair "abort_shader_on_hard_failure" (renderBool s.lift.abortOnFailure)
    ++ renderPair "register_slots" s.lift.registerSlots.toNat.repr
    ++ renderPair "shader_cache" (renderBool s.lift.cacheModules)
    ++ "\n[debug]\n"
    ++ renderPair "log_level" logLevel
    ++ renderPair "dump_disasm" (renderBool s.debug.dumpListing)
    ++ renderPair "dump_shaders" (renderBool s.debug.dumpModule)
    ++ renderPair "dump_path" dumpPath

end Settings

end TextureLift
