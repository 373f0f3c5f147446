/-!
# Characters of TOML documents

What counts as blank, as text and as the end of a line. A reader takes what it can from the front of
the characters and returns it with the rest.
-/

namespace TextureLift.Toml

/-- A reader of the front of some characters. -/
abbrev Reader (α : Type) := List Char → Option (α × List Char)

/-- Spaces and tabs. -/
def isSpace (c : Char) : Bool :=
  c == ' ' || c == '\t'

/-- Characters that strings and comments may hold as they are: all but controls, and the tab. -/
def isText (c : Char) : Bool :=
  c == '\t' || (' ' ≤ c && c != '\x7f')

def skipSpace (cs : List Char) : List Char :=
  cs.dropWhile isSpace

/-- The characters after the end of a line. -/
def newline? : List Char → Option (List Char)
  | '\n' :: rest => some rest
  | '\r' :: '\n' :: rest => some rest
  | _ => none

def skipComment : List Char → List Char
  | '#' :: rest => rest.dropWhile isText
  | cs => cs

/-- The characters after the end of a line or document, with blanks and a comment before it. -/
def lineEnd? (cs : List Char) : Option (List Char) :=
  match skipComment (skipSpace cs) with
  | [] => some []
  | rest => newline? rest

/-- The characters after blanks, line ends and comments. The flag tells whether the characters start
inside a comment. -/
def skipFiller : Bool → List Char → List Char
  | _, '\n' :: rest => skipFiller false rest
  | _, '\r' :: '\n' :: rest => skipFiller false rest
  | true, c :: rest => if isText c then skipFiller true rest else c :: rest
  | false, '#' :: rest => skipFiller true rest
  | false, c :: rest => if isSpace c then skipFiller false rest else c :: rest
  | _, [] => []

end TextureLift.Toml
