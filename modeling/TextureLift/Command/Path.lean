/-!
# Paths

Paths are texts with names between slashes. The stem of a file name is what stands before its last
point, unless nothing does. The points alone in `.` and `..` stand for a directory itself and for the
one above it.
-/

namespace TextureLift.Command.Path

/-- The texts between slashes, at least one. -/
def split : List Char → List (List Char)
  | [] => [[]]
  | c :: rest =>
    if c = '/' then [] :: split rest
    else match split rest with
      | name :: names => (c :: name) :: names
      | [] => [[c]]

/-- The names of a path. A slash at the end leaves an empty one. -/
def names (path : String) : List String :=
  (split path.toList).map .ofList

/-- The characters before the last occurrence of one, if it occurs. -/
def beforeLast (c : Char) (cs : List Char) : Option (List Char) :=
  if c ∈ cs then some ((cs.reverse.dropWhile (· != c)).drop 1).reverse else none

/-- The path up to its last name. -/
def directory (path : String) : String :=
  match beforeLast '/' path.toList with
  | some parent => .ofList (parent ++ ['/'])
  | none => ""

/-- The last name of a path. -/
def lastName (path : String) : List Char :=
  ((split path.toList).getLast?).getD []

/-- A name without its extension, if it has one. -/
def stemOf (name : List Char) : List Char :=
  match beforeLast '.' name with
  | some (c :: rest) => c :: rest
  | _ => name

/-- The last name of a path without its extension. -/
def stem (path : String) : String :=
  .ofList (stemOf (lastName path))

/-- A name up to the point before its extension; the whole name if it has none. -/
def throughPoint (name : List Char) : List Char :=
  match beforeLast '.' name with
  | some (c :: rest) => c :: rest ++ ['.']
  | _ => name

/-- The path with another extension. Where only `..` is left of the name without the old one, the
path has become that of a directory and gets no other. -/
def withExtension (path extension : String) : String :=
  let rest := throughPoint (lastName path)
  if rest = ['.', '.'] then directory path ++ ".."
  else directory path ++ .ofList (stemOf rest) ++ "." ++ extension

/-- The names of a path that lead somewhere: without empty ones, and without `.` but at the start. -/
def steps (path : String) : List String :=
  match names path with
  | "." :: rest => "." :: rest.filter fun name => name ≠ "" ∧ name ≠ "."
  | all => all.filter fun name => name ≠ "" ∧ name ≠ "."

/-- The paths of the directories above, outermost first. -/
def ancestors (path : String) : List String :=
  let root := if path.startsWith "/" then "/" else ""
  let all := steps path
  (List.range all.length).filterMap fun count =>
    if count = 0 ∧ root = "" then none else some (root ++ "/".intercalate (all.take count))

/-- The path of a name in a directory. -/
def join (parent name : String) : String :=
  if parent.isEmpty || parent.toList.getLast? == some '/' then parent ++ name
  else parent ++ "/" ++ name

end TextureLift.Command.Path
