import TextureLift.Text.Blank
import TextureLift.Text.Digit

/-!
# Instruction words in job files

A word is a hexadecimal number below 2^64. White space around it, one `0x` or `0X` in front,
underscores anywhere after that, and a plus sign before the digits are allowed.
-/

namespace TextureLift.Job

/-- The characters after the base mark, if there is one. -/
def dropBaseMark : List Char → List Char
  | '0' :: 'x' :: rest => rest
  | '0' :: 'X' :: rest => rest
  | cs => cs

/-- The characters after the sign, if there is one. -/
def dropPlus : List Char → List Char
  | '+' :: rest => rest
  | cs => cs

/-- Reads an instruction word. -/
def word? (s : String) : Option UInt64 := do
  let digits := (dropBaseMark (Text.trim s.toList)).filter (· != '_')
  let n ← Text.number? 16 (dropPlus digits)
  if n < UInt64.size then some (.ofNat n) else none

end TextureLift.Job
