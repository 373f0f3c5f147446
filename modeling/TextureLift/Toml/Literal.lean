import TextureLift.Text.Digit
import TextureLift.Toml.Character

/-!
# TOML strings

Basic strings have escapes and stand in double quotes; literal strings have none and stand in single
quotes. Both have a form in triple quotes that may run over lines: a line end right after the opening
quotes is dropped, all others become line feeds, and up to two quotes may stand before the closing
ones. In a basic string over lines, a backslash at the end of a line drops the blanks and line ends
that follow.
-/

namespace TextureLift.Toml

/-- The character with the code point that hexadecimal digits give. -/
def codePoint? (digits : List Char) : Option Char := do
  let n ← Text.number? 16 digits
  if n.isValidChar then some (.ofNat n) else none

/-- The character that a letter after a backslash stands for. -/
def escape? : Char → Option Char
  | 'b' => some '\x08'
  | 't' => some '\t'
  | 'n' => some '\n'
  | 'f' => some '\x0c'
  | 'r' => some '\r'
  | '"' => some '"'
  | '\\' => some '\\'
  | _ => none

/-- Puts a character in front of what a reader took. -/
def push (c : Char) : Option (List Char × List Char) → Option (List Char × List Char)
  | some (taken, rest) => some (c :: taken, rest)
  | none => none

/-- A basic string after its opening quote. -/
def basic : Reader (List Char)
  | '"' :: rest => some ([], rest)
  | '\\' :: 'u' :: a :: b :: c :: d :: rest => do
    push (← codePoint? [a, b, c, d]) (basic rest)
  | '\\' :: 'U' :: a :: b :: c :: d :: e :: f :: g :: h :: rest => do
    push (← codePoint? [a, b, c, d, e, f, g, h]) (basic rest)
  | '\\' :: c :: rest => do push (← escape? c) (basic rest)
  | ['\\'] => none
  | c :: rest => if isText c then push c (basic rest) else none
  | [] => none

/-- A literal string after its opening quote. -/
def literal : Reader (List Char)
  | '\'' :: rest => some ([], rest)
  | c :: rest => if isText c then push c (literal rest) else none
  | [] => none

/-- What follows three quotes that may close a string: up to two more belong to the string. -/
def closing (mark : Char) : List Char → List Char × List Char
  | a :: b :: rest =>
    if a = mark then if b = mark then ([mark, mark], rest) else ([mark], b :: rest)
    else ([], a :: b :: rest)
  | [a] => if a = mark then ([mark], []) else ([], [a])
  | [] => ([], [])

/-- A basic string over lines after its opening quotes. The flag tells whether blanks and line ends
are being dropped. -/
def basicLines : Bool → Reader (List Char)
  | _, '"' :: '"' :: '"' :: rest => some (closing '"' rest)
  | true, '\n' :: rest => basicLines true rest
  | true, '\r' :: '\n' :: rest => basicLines true rest
  | false, '\n' :: rest => push '\n' (basicLines false rest)
  | false, '\r' :: '\n' :: rest => push '\n' (basicLines false rest)
  | _, '\\' :: 'u' :: a :: b :: c :: d :: rest => do
    push (← codePoint? [a, b, c, d]) (basicLines false rest)
  | _, '\\' :: 'U' :: a :: b :: c :: d :: e :: f :: g :: h :: rest => do
    push (← codePoint? [a, b, c, d, e, f, g, h]) (basicLines false rest)
  | _, '\\' :: c :: rest =>
    if (newline? (skipSpace (c :: rest))).isSome then basicLines true (c :: rest)
    else do push (← escape? c) (basicLines false rest)
  | _, ['\\'] => none
  | drop, c :: rest =>
    if drop && isSpace c then basicLines true rest
    else if isText c then push c (basicLines false rest) else none
  | _, [] => none

/-- A literal string over lines after its opening quotes. -/
def literalLines : Reader (List Char)
  | '\'' :: '\'' :: '\'' :: rest => some (closing '\'' rest)
  | '\n' :: rest => push '\n' (literalLines rest)
  | '\r' :: '\n' :: rest => push '\n' (literalLines rest)
  | c :: rest => if isText c then push c (literalLines rest) else none
  | [] => none

/-- The characters without a line end in front. -/
def dropNewline (cs : List Char) : List Char :=
  (newline? cs).getD cs

/-- Any string. -/
def string : Reader String := fun cs => do
  let (taken, rest) ← match cs with
    | '"' :: '"' :: '"' :: rest => basicLines false (dropNewline rest)
    | '"' :: rest => basic rest
    | '\'' :: '\'' :: '\'' :: rest => literalLines (dropNewline rest)
    | '\'' :: rest => literal rest
    | _ => none
  return (.ofList taken, rest)

end TextureLift.Toml
