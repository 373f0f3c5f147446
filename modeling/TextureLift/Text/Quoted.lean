import TextureLift.Text.Plain

/-!
# Quoted text

Text in double quotes on one line. Quotes, backslashes and common controls have short escapes; every
other character that cannot be shown is written as its code point in hexadecimal.
-/

namespace TextureLift.Text

/-- The text of a character between quotes. -/
def escape (c : Char) : List Char :=
  match c with
  | '"' => ['\\', '"']
  | '\\' => ['\\', '\\']
  | '\n' => ['\\', 'n']
  | '\r' => ['\\', 'r']
  | '\t' => ['\\', 't']
  | '\x00' => ['\\', '0']
  | _ => if isPlain c then [c] else ['\\', 'u', '\x7b'] ++ Nat.toDigits 16 c.toNat ++ ['\x7d']

/-- The text in double quotes. -/
def quote (s : String) : String :=
  .ofList ('"' :: s.toList.flatMap escape ++ ['"'])

end TextureLift.Text
