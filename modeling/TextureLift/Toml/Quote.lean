/-!
# Writing TOML strings

A string is written in the plainest form that can hold it. `quote?` tries, in this order: a basic
string without escapes, a literal string, the same two over lines, and last a basic string with
escapes, which is over lines if the text is. A tab never keeps a basic string from being plain, though
it is written as an escape there.

The choice depends on how many quotes follow each other. They are counted in a byte, so texts with
longer runs of quotes cannot be written.
-/

namespace TextureLift.Toml

/-- Length of the longest run of a character. -/
def longestRun (c : Char) (cs : List Char) : Nat :=
  (cs.foldl (fun (longest, current) a =>
    let current := if a = c then current + 1 else 0
    (max longest current, current)) (0, 0)).1

/-- Controls other than tab and line feed: only an escape can give them. -/
def isControl (c : Char) : Bool :=
  (c < ' ' && c != '\t' && c != '\n') || c == '\x7f'

/-- A character of a basic string. -/
def escaped : Char → List Char
  | '\x08' => ['\\', 'b']
  | '\t' => ['\\', 't']
  | '\n' => ['\\', 'n']
  | '\x0c' => ['\\', 'f']
  | '\r' => ['\\', 'r']
  | '\\' => ['\\', '\\']
  | c =>
    if isControl c then
      let digits := (Nat.toDigits 16 c.toNat).map Char.toUpper
      ['\\', 'u'] ++ List.replicate (4 - digits.length) '0' ++ digits
    else [c]

/-- The inside of a basic string. Over lines, line feeds stay, and so do two quotes in a row; the
number says how many stand right before. -/
def basicText (overLines : Bool) : Nat → List Char → List Char
  | _, [] => []
  | run, '"' :: rest =>
    if overLines && run < 2 then '"' :: basicText overLines (run + 1) rest
    else '\\' :: '"' :: basicText overLines 0 rest
  | _, '\n' :: rest =>
    (if overLines then ['\n'] else escaped '\n') ++ basicText overLines 0 rest
  | _, c :: rest => escaped c ++ basicText overLines 0 rest

/-- The text between triple quotes. A line end after the opening ones keeps the text's own lines
together. -/
def tripled (mark : Char) (cs text : List Char) : List Char :=
  List.replicate 3 mark ++ (if '\n' ∈ cs then ['\n'] else []) ++ text ++ List.replicate 3 mark

/-- The longest run of quotes that can be counted. -/
def runLimit : Nat := 255

/-- Writes a string, unless it has a run of quotes that is too long to be counted. -/
def quote? (s : String) : Option String :=
  let cs := s.toList
  let doubleRun := longestRun '"' cs
  let singleRun := longestRun '\'' cs
  let controls := cs.any isControl
  let backslash := cs.contains '\\'
  let lines := cs.contains '\n'
  if runLimit < doubleRun ∨ runLimit < singleRun then none
  else some <| .ofList <|
    if !controls && !backslash && !lines && doubleRun == 0 then
      '"' :: basicText false 0 cs ++ ['"']
    else if !controls && !lines && singleRun == 0 then '\'' :: cs ++ ['\'']
    else if !controls && !backslash && doubleRun ≤ 2 then tripled '"' cs (basicText true 0 cs)
    else if !controls && singleRun ≤ 2 then tripled '\'' cs cs
    else if lines then tripled '"' cs (basicText true 0 cs)
    else '"' :: basicText false 0 cs ++ ['"']

end TextureLift.Toml
