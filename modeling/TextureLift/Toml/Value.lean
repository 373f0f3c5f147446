/-!
# TOML values

Documents are read into values. Tables keep their entries in the order of appearance and remember how
they came about, since that decides whether later lines may add to them: a table written in braces is
closed, one that only stands in the path of a header may still get a header of its own, and one made
by dotted keys may only be extended by more of these.

Nothing in this library looks inside floats and dates, so they carry no contents.
-/

namespace TextureLift.Toml

/-- How a table came about. -/
inductive Origin where
  /-- Written in braces. -/
  | inline
  /-- Under a header of its own. -/
  | header
  /-- Named in the path of another header. -/
  | implicit
  /-- Named by dotted keys. -/
  | dotted
  deriving DecidableEq, Repr

/-- A TOML value. -/
inductive Value where
  | string (s : String)
  | integer (n : Int)
  | float
  | boolean (b : Bool)
  | datetime
  | array (items : List Value)
  /-- An array that headers in double brackets add tables to. -/
  | tableArray (items : List Value)
  | table (origin : Origin) (entries : List (String × Value))
  deriving Repr

/-- The entries of a table in order. -/
abbrev Entries := List (String × Value)

namespace Entries

/-- The entries with the value of a key replaced, or added at the end. -/
def put (entries : Entries) (key : String) (value : Value) : Entries :=
  match entries with
  | [] => [(key, value)]
  | (k, v) :: rest => if k = key then (key, value) :: rest else (k, v) :: put rest key value

/-- Adds an entry under a dotted key. New tables on the way are dotted ones. The last table on the
way has to be dotted, unless it is where the path starts: `allowed` tells whether it is either. -/
def insertDotted (value : Value) : List String → Bool → Entries → Option Entries
  | [], _, _ => none
  | [key], allowed, entries =>
    if allowed && (entries.lookup key).isNone then some (entries ++ [(key, value)]) else none
  | key :: rest, _, entries =>
    match entries.lookup key with
    | none => do
      let child ← insertDotted value rest true []
      return entries ++ [(key, .table .dotted child)]
    | some (.table .dotted child) => do
      return entries.put key (.table .dotted (← insertDotted value rest true child))
    | some (.table .implicit child) => do
      return entries.put key (.table .implicit (← insertDotted value rest false child))
    | some (.tableArray items) =>
      match items.getLast? with
      | some (.table origin child) => do
        let child ← insertDotted value rest false child
        return entries.put key (.tableArray (items.dropLast ++ [.table origin child]))
      | _ => none
    | _ => none

/-- Changes the entries of the table at a path of headers. An array of tables stands for its last
table; tables that do not exist yet become implicit ones. -/
def within (change : Entries → Option Entries) : List String → Entries → Option Entries
  | [], entries => change entries
  | key :: rest, entries =>
    match entries.lookup key with
    | none => do
      return entries.put key (.table .implicit (← within change rest []))
    | some (.table .inline _) => none
    | some (.table origin child) => do
      return entries.put key (.table origin (← within change rest child))
    | some (.tableArray items) =>
      match items.getLast? with
      | some (.table origin child) => do
        let child ← within change rest child
        return entries.put key (.tableArray (items.dropLast ++ [.table origin child]))
      | _ => none
    | _ => none

/-- Gives a table its header. No table has two. -/
def openTable (key : String) (entries : Entries) : Option Entries :=
  match entries.lookup key with
  | none => some (entries.put key (.table .header []))
  | some (.table .implicit child) => some (entries.put key (.table .header child))
  | _ => none

/-- Adds a table to an array of tables. -/
def openTableArray (key : String) (entries : Entries) : Option Entries :=
  match entries.lookup key with
  | none => some (entries.put key (.tableArray [.table .header []]))
  | some (.tableArray items) => some (entries.put key (.tableArray (items ++ [.table .header []])))
  | _ => none

end Entries

end TextureLift.Toml
