import TextureLift.Command.Path

/-!
# Files

What the command needs of a file system, and a file system as a value: files and directories, each at
its place from the root or from a working directory. The root and the directories above the working
directory are there, with little in them that one could know of: below the root every system has
`/dev`, `/tmp` and the file `/dev/null`.
-/

namespace TextureLift.Command

/-- Why a file could not be used. -/
inductive FileError where
  | notFound
  | notDirectory
  | isDirectory
  | alreadyExists
  | nameTooLong
  /-- Names have no zero characters. -/
  | invalidName
  /-- The contents are no text. -/
  | notText
  | other (detail : String)
  deriving DecidableEq, Repr

namespace FileError

/-- The text with the system's number, where it has one. -/
def message : FileError → String
  | notFound => "No such file or directory (os error 2)"
  | notDirectory => "Not a directory (os error 20)"
  | isDirectory => "Is a directory (os error 21)"
  | alreadyExists => "File exists (os error 17)"
  | nameTooLong => "File name too long (os error 36)"
  | invalidName => "file name contained an unexpected NUL byte"
  | notText => "stream did not contain valid UTF-8"
  | other detail => detail

/-- Whether the error says that nothing is there. -/
def isAbsence : FileError → Bool
  | notFound | notDirectory | nameTooLong | invalidName => true
  | _ => false

end FileError

/-- The operations on files. -/
structure Files (m : Type → Type) where
  readText : String → m (Except FileError String)
  write : String → ByteArray → m (Except FileError Unit)
  /-- Makes a directory in one that is there. -/
  makeDirectory : String → m (Except FileError Unit)
  isDirectory : String → m Bool

namespace Files

variable {m : Type → Type} [Monad m]

/-- Makes directories in order, but for those that are there. -/
def makeAll (files : Files m) : List String → m (Except FileError Unit)
  | [] => return .ok ()
  | path :: rest => do
    match ← files.makeDirectory path with
    | .ok () => files.makeAll rest
    | .error e => if ← files.isDirectory path then files.makeAll rest else return .error e

/-- Makes a directory and those above it, as far as they are missing. What stands above is taken from
the names that lead somewhere, so a missing directory is not made for the sake of a `.` in it. -/
def createDirectories (files : Files m) (path : String) : m (Except FileError Unit) :=
  if path.isEmpty then return .ok () else files.makeAll (Path.ancestors path ++ [path])

end Files

/-- Whether a place holds a file or a directory. -/
inductive NodeKind where
  | file
  | directory
  deriving DecidableEq, Repr

/-- A directory from which places are counted. -/
inductive Base where
  | root
  /-- So many levels above the working directory; itself at none. -/
  | above (levels : Nat)
  deriving DecidableEq, Repr

/-- Where a file or directory is: the names that lead to it. -/
structure Place where
  base : Base
  names : List String := []
  deriving DecidableEq, Repr

namespace Place

/-- The place of a name in a directory. -/
def child (place : Place) (name : String) : Place :=
  { place with names := place.names ++ [name] }

/-- The directory above. The root is above itself. -/
def parent : Place → Place
  | ⟨.root, []⟩ => ⟨.root, []⟩
  | ⟨.above levels, []⟩ => ⟨.above (levels + 1), []⟩
  | ⟨base, names⟩ => ⟨base, names.dropLast⟩

/-- Where a path starts. -/
def start (path : String) : Place :=
  if path.startsWith "/" then ⟨.root, []⟩ else ⟨.above 0, []⟩

/-- A file that is always empty. -/
def null : Place := ⟨.root, ["dev", "null"]⟩

end Place

/-- Files and directories by their places. -/
structure FileTree where
  files : List (Place × ByteArray) := [(.null, .empty)]
  directories : List Place := [⟨.root, ["dev"]⟩, ⟨.root, ["tmp"]⟩]

namespace FileTree

/-- Bounds on the bytes of a name and of a path. -/
def nameLimit : Nat := 255

def pathLimit : Nat := 4095

/-- What is at a place. The directories from which places are counted are always there. -/
def kind? (t : FileTree) (place : Place) : Option NodeKind :=
  if (t.files.lookup place).isSome then some .file
  else if place.names.isEmpty || t.directories.contains place then some .directory
  else none

/-- The place to which a name leads from another. -/
def step (t : FileTree) (place : Place) (name : String) : Except FileError Place :=
  match t.kind? place with
  | none => .error .notFound
  | some .file => .error .notDirectory
  | some .directory =>
    if name = "" ∨ name = "." then .ok place
    else if name = ".." then .ok place.parent
    else if nameLimit < name.utf8ByteSize then .error .nameTooLong
    else .ok (place.child name)

/-- The names of a path that can be looked up. -/
def checkedNames (path : String) : Except FileError (List String) :=
  if path.contains '\x00' then .error .invalidName
  else if pathLimit < path.utf8ByteSize then .error .nameTooLong
  else if path.isEmpty then .error .notFound
  else .ok (Path.names path)

/-- The place of a path. All directories on the way are there. -/
def locate (t : FileTree) (path : String) : Except FileError Place := do
  (← checkedNames path).foldlM t.step (.start path)

def readText (t : FileTree) (path : String) : Except FileError String := do
  let place ← t.locate path
  match t.files.lookup place with
  | some contents =>
    match String.fromUTF8? contents with
    | some text => .ok text
    | none => .error .notText
  | none => .error (if (t.kind? place).isSome then .isDirectory else .notFound)

/-- The tree with a file, in place of one that was there. The empty file stays empty. -/
def put (t : FileTree) (place : Place) (contents : ByteArray) : FileTree :=
  if place = .null then t
  else { t with files := t.files.filter (·.1 != place) ++ [(place, contents)] }

def write (t : FileTree) (path : String) (contents : ByteArray) : Except FileError FileTree := do
  let place ← t.locate path
  if t.kind? place = some .directory then .error .isDirectory else .ok (t.put place contents)

/-- Makes a directory. Slashes at the end of its path do not matter. -/
def makeDirectory (t : FileTree) (path : String) : Except FileError FileTree := do
  let names := ((← checkedNames path).reverse.dropWhile (·.isEmpty)).reverse
  let place ← names.foldlM t.step (.start path)
  if (t.kind? place).isSome then .error .alreadyExists
  else .ok { t with directories := place :: t.directories }

def isDirectory (t : FileTree) (path : String) : Bool :=
  match t.locate path with
  | .ok place => t.kind? place = some .directory
  | .error _ => false

/-- The outcome of an operation and the tree after it. One that fails changes nothing. -/
def apply (t : FileTree) : Except FileError FileTree → Except FileError Unit × FileTree
  | .ok changed => (.ok (), changed)
  | .error e => (.error e, t)

/-- A file system that is a value. -/
def operations : Files (StateM FileTree) where
  readText path t := (t.readText path, t)
  write path contents t := t.apply (t.write path contents)
  makeDirectory path t := t.apply (t.makeDirectory path)
  isDirectory path t := (t.isDirectory path, t)

/-- The tree with the given files, and the directories that hold them. -/
def ofFiles (files : List (String × ByteArray)) : FileTree :=
  files.foldl (fun t (path, contents) =>
    let t := (operations.createDirectories (Path.directory path) t).2
    (t.apply (t.write path contents)).2) {}

/-- The files below the working directory that are new or have other contents than before. -/
def changes (before after : FileTree) : List (String × ByteArray) :=
  (after.files.filter fun (place, contents) =>
    place.base == .above 0 && (before.files.lookup place).all (·.data != contents.data)).map
      fun (place, contents) => ("/".intercalate place.names, contents)

end FileTree

end TextureLift.Command
