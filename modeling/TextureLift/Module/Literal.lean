/-!
# Literal strings

A literal string is its UTF-8 bytes, four to a word and the first in the low bits, ended by a zero
byte and filled up with zero bytes. The last word always holds at least one zero byte.
-/

namespace TextureLift.Literal

/-- The word of four bytes, the first in the low bits. -/
def word (a b c d : UInt8) : UInt32 :=
  a.toUInt32 ||| b.toUInt32 <<< 8 ||| c.toUInt32 <<< 16 ||| d.toUInt32 <<< 24

/-- The words of some bytes and the zero bytes that end them. -/
def ofBytes : List UInt8 → List UInt32
  | a :: b :: c :: d :: rest => word a b c d :: ofBytes rest
  | [a, b, c] => [word a b c 0]
  | [a, b] => [word a b 0 0]
  | [a] => [word a 0 0 0]
  | [] => [0]

/-- The words of a string. -/
def ofString (s : String) : List UInt32 :=
  ofBytes s.toUTF8.toList

end TextureLift.Literal
