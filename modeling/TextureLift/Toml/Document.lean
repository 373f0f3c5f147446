import TextureLift.Toml.Literal
import TextureLift.Toml.Number

/-!
# TOML documents

A document is a sequence of lines: blank ones, entries, and headers that say which table the next
entries belong to. `parse?` gives the entries of the whole document.

Arrays and tables in braces may stand inside each other up to a depth of 79, and a dotted key has at
most 79 parts; so reading values recurses on the depth that is left. Loops over parts of equal depth
recurse on the number of characters.
-/

namespace TextureLift.Toml

/-- The greatest depth of values, and number of parts of a key. -/
def nestingLimit : Nat := 79

/-! ## Keys -/

/-- Characters of keys without quotes. -/
def isBare (c : Char) : Bool :=
  c.isAlphanum || c == '_' || c == '-'

/-- One part of a key. -/
def keyPart : Reader String
  | '"' :: rest => do
    let (taken, rest) ← basic rest
    return (.ofList taken, rest)
  | '\'' :: rest => do
    let (taken, rest) ← literal rest
    return (.ofList taken, rest)
  | cs =>
    match cs.takeWhile isBare with
    | [] => none
    | taken => some (.ofList taken, cs.dropWhile isBare)

/-- The parts of a key with at most the given number of them, and blanks around each. -/
def keyPath : Nat → Reader (List String)
  | 0, _ => none
  | limit + 1, cs => do
    let (part, rest) ← keyPart (skipSpace cs)
    match skipSpace rest with
    | '.' :: rest => do
      let (parts, rest) ← keyPath limit rest
      return (part :: parts, rest)
    | rest => return ([part], rest)

/-! ## Values -/

/-- A key and its value. -/
def pair (value : Reader Value) : Reader (List String × Value) := fun cs => do
  let (path, rest) ← keyPath nestingLimit cs
  let (v, rest) ← value (skipSpace (← mark? '=' rest))
  return ((path, v), rest)

/-- The items of an array up to its closing bracket. A comma may follow the last one. -/
def arrayItems (value : Reader Value) : Nat → Reader (List Value)
  | 0, _ => none
  | fuel + 1, cs =>
    match skipFiller false cs with
    | ']' :: rest => some ([], rest)
    | cs => do
      let (v, rest) ← value cs
      match skipFiller false rest with
      | ']' :: rest => return ([v], rest)
      | ',' :: rest => do
        let (vs, rest) ← arrayItems value fuel rest
        return (v :: vs, rest)
      | _ => none

/-- The pairs of a table in braces, at least one, up to its closing brace. -/
def inlinePairs (value : Reader Value) : Nat → Entries → Reader Entries
  | 0, _, _ => none
  | fuel + 1, entries, cs => do
    let ((path, v), rest) ← pair value cs
    let entries ← entries.insertDotted v path true
    match skipSpace rest with
    | '\x7d' :: rest => return (entries, rest)
    | ',' :: rest => inlinePairs value fuel entries rest
    | _ => none

/-- A table in braces after the opening one. -/
def inlineTable (value : Reader Value) : Reader Value := fun cs =>
  match skipSpace cs with
  | '\x7d' :: rest => some (.table .inline [], rest)
  | cs => do
    let (entries, rest) ← inlinePairs value (cs.length + 1) [] cs
    return (.table .inline entries, rest)

/-- A value with the given number of levels inside it. -/
def value : Nat → Reader Value
  | depth, cs =>
    match cs with
    | '[' :: rest =>
      match depth with
      | 0 => none
      | depth + 1 => do
        let (items, rest) ← arrayItems (value depth) (rest.length + 1) rest
        return (.array items, rest)
    | '\x7b' :: rest =>
      match depth with
      | 0 => none
      | depth + 1 => inlineTable (value depth) rest
    | '"' :: _ | '\'' :: _ => do
      let (s, rest) ← string cs
      return (.string s, rest)
    | 't' :: 'r' :: 'u' :: 'e' :: rest => some (.boolean true, rest)
    | 'f' :: 'a' :: 'l' :: 's' :: 'e' :: rest => some (.boolean false, rest)
    | _ => number cs

/-! ## Lines -/

/-- A document that has been read up to some line. -/
structure Progress where
  entries : Entries := []
  /-- The path of the header above. -/
  header : List String := []

namespace Progress

/-- Adds an entry to the table of the header above. -/
def addPair (p : Progress) (path : List String) (v : Value) : Option Progress := do
  let entries ← p.entries.within (·.insertDotted v path true) p.header
  return { p with entries }

/-- Starts a table by changing the one above it. -/
def openHeader (p : Progress) (start : String → Entries → Option Entries) (path : List String) :
    Option Progress := do
  let key ← path.getLast?
  return ⟨← p.entries.within (start key) path.dropLast, path⟩

end Progress

/-- One line: what it makes of the document, and the lines after it. -/
def line (p : Progress) : Reader Progress := fun cs =>
  match skipSpace cs with
  | '[' :: '[' :: rest => do
    let (path, rest) ← keyPath nestingLimit rest
    let rest ← lineEnd? (← mark? ']' (← mark? ']' rest))
    return (← p.openHeader Entries.openTableArray path, rest)
  | '[' :: rest => do
    let (path, rest) ← keyPath nestingLimit rest
    let rest ← lineEnd? (← mark? ']' rest)
    return (← p.openHeader Entries.openTable path, rest)
  | cs =>
    match lineEnd? cs with
    | some rest => some (p, rest)
    | none => do
      let ((path, v), rest) ← pair (value nestingLimit) cs
      return (← p.addPair path v, ← lineEnd? rest)

/-- All lines. -/
def lines : Nat → Progress → List Char → Option Entries
  | _, p, [] => some p.entries
  | 0, _, _ => none
  | fuel + 1, p, cs => do
    let (p, rest) ← line p cs
    lines fuel p rest

/-- Reads a document, which may start with a byte order mark. -/
def parse? (s : String) : Option Entries :=
  let cs := match s.toList with
    | '\uFEFF' :: rest => rest
    | cs => cs
  lines cs.length {} cs

end TextureLift.Toml
