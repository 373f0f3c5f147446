import TextureLift.Toml.Value

/-!
# Typed reading of TOML values

Records are read from tables by the names of their fields, or from arrays by position. Fields that a
record does not have are ignored. A choice between names is written as a string, or as a table with
the name as its only key and nothing in its value.
-/

namespace TextureLift.Toml

namespace Value

def string? : Value → Option String
  | string s => some s
  | _ => none

def boolean? : Value → Option Bool
  | boolean b => some b
  | _ => none

/-- A number from zero up to, and without, a bound. -/
def natural? (bound : Nat) : Value → Option Nat
  | integer n => if 0 ≤ n ∧ n < bound then some n.toNat else none
  | _ => none

def uint8? (v : Value) : Option UInt8 :=
  (v.natural? UInt8.size).map .ofNat

def uint32? (v : Value) : Option UInt32 :=
  (v.natural? UInt32.size).map .ofNat

/-- A list, all of whose items can be read. -/
def list? {α : Type} (item? : Value → Option α) : Value → Option (List α)
  | array items => items.mapM item?
  | tableArray items => items.mapM item?
  | _ => none

/-- Whether the value is a table or array without contents. -/
def isHollow : Value → Bool
  | array items => items.isEmpty
  | tableArray items => items.isEmpty
  | table _ entries => entries.isEmpty
  | _ => false

/-- A name: a string, or the only key of a table. -/
def name? : Value → Option String
  | string s => some s
  | table _ [(key, v)] => if v.isHollow then some key else none
  | _ => none

end Value

/-- The fields of a record. -/
inductive Record where
  | named (entries : Entries)
  | positional (items : List Value)

/-- The fields that a value holds. A date counts as a record with fields that nobody asks for. -/
def Value.record? : Value → Option Record
  | table _ entries => some (.named entries)
  | array items => some (.positional items)
  | tableArray items => some (.positional items)
  | datetime => some (.named [])
  | _ => none

namespace Record

variable {α : Type}

def field? (r : Record) (position : Nat) (name : String) : Option Value :=
  match r with
  | named entries => entries.lookup name
  | positional items => items[position]?

/-- A field that has to be there. -/
def required (r : Record) (position : Nat) (name : String) (read : Value → Option α) : Option α := do
  read (← r.field? position name)

/-- A field with a value to take if it is not there. -/
def defaulted (r : Record) (position : Nat) (name : String) (default : α)
    (read : Value → Option α) : Option α :=
  match r.field? position name with
  | some v => read v
  | none => some default

/-- A field that may be missing. -/
def optional (r : Record) (position : Nat) (name : String) (read : Value → Option α) :
    Option (Option α) :=
  r.defaulted position name none fun v => (read v).map some

end Record

end TextureLift.Toml
