import TextureLift.Text.Digit
import TextureLift.Toml.Character
import TextureLift.Toml.Value

/-!
# TOML numbers and dates

Integers have 64 bits with sign. Digits may be grouped by single underscores. Of a float it only
matters whether it can be held: one above the largest double is refused. Of dates and times it
matters whether they exist.
-/

namespace TextureLift.Toml

/-! ## Digits -/

/-- Further digits of a number, where a digit may follow an underscore. -/
def moreDigits (base : Nat) : Reader (List Char)
  | '_' :: c :: rest => do
    guard (Text.isDigit base c)
    let (digits, rest) ← moreDigits base rest
    return (c :: digits, rest)
  | ['_'] => none
  | c :: rest =>
    if Text.isDigit base c then do
      let (digits, rest) ← moreDigits base rest
      return (c :: digits, rest)
    else some ([], c :: rest)
  | [] => some ([], [])

/-- One or more digits. -/
def digits (base : Nat) : Reader (List Char)
  | c :: rest => if Text.isDigit base c then moreDigits base (c :: rest) else none
  | [] => none

/-- Decimal digits of a whole number: no zero stands before other digits. -/
def wholeDigits : Reader (List Char)
  | '0' :: rest => some (['0'], rest)
  | cs => digits 10 cs

/-- A sign, if there is one: whether the number is negative. -/
def sign : List Char → Bool × List Char
  | '+' :: rest => (false, rest)
  | '-' :: rest => (true, rest)
  | cs => (false, cs)

/-! ## Integers -/

/-- Integers that 64 bits hold. -/
def integerValue? (n : Int) : Option Value :=
  if Int64.minValue.toInt ≤ n ∧ n ≤ Int64.maxValue.toInt then some (.integer n) else none

def integer : Reader Value := fun cs => do
  let (base, negative, digits, rest) ← match cs with
    | '0' :: 'x' :: rest => (16, false, ·) <$> digits 16 rest
    | '0' :: 'o' :: rest => (8, false, ·) <$> digits 8 rest
    | '0' :: 'b' :: rest => (2, false, ·) <$> digits 2 rest
    | _ => (10, (sign cs).1, ·) <$> wholeDigits (sign cs).2
  let n ← Text.number? base digits
  return (← integerValue? (if negative then -n else n), rest)

/-! ## Floats -/

/-- Whether `n * 10 ^ e` rounds to a double that is not infinite. The least number that does not lies
in the middle between the largest double and the power of two above it. -/
def isFinite (n : Nat) (e : Int) : Bool :=
  let bound := Nat.pow 2 1024 - Nat.pow 2 970
  let length : Int := (Nat.toDigits 10 n).length
  if n = 0 ∨ length + e < 300 then true
  else if 400 < length + e then false
  else if 0 ≤ e then n * Nat.pow 10 e.toNat < bound
  else n < bound * Nat.pow 10 (-e).toNat

/-- Digits after a point, if there is one. -/
def fraction? : List Char → Option (List Char × List Char)
  | '.' :: rest => digits 10 rest
  | _ => none

/-- The exponent after its mark, if there is one. -/
def exponent? : List Char → Option (Int × List Char)
  | c :: rest => do
    guard (c == 'e' || c == 'E')
    let (negative, rest) := sign rest
    let (digits, rest) ← digits 10 rest
    let n ← Text.number? 10 digits
    return (if negative then -n else n, rest)
  | [] => none

/-- A float has a fraction, an exponent or both. -/
def decimalFloat : Reader Value := fun cs => do
  let (negative, rest) := sign cs
  let (whole, rest) ← wholeDigits rest
  let fraction := fraction? rest
  let (decimals, rest) := fraction.getD ([], rest)
  let exponent := exponent? rest
  let (scale, rest) := exponent.getD (0, rest)
  guard (fraction.isSome || exponent.isSome)
  let n ← Text.number? 10 (whole ++ decimals)
  guard (negative || isFinite n (scale - decimals.length))
  return (.float, rest)

/-- Infinity and what is not a number. -/
def specialFloat : Reader Value := fun cs =>
  match (sign cs).2 with
  | 'i' :: 'n' :: 'f' :: rest => some (.float, rest)
  | 'n' :: 'a' :: 'n' :: rest => some (.float, rest)
  | _ => none

/-! ## Dates and times -/

/-- A number of exactly two digits, within bounds. -/
def twoDigits (least greatest : Nat) : Reader Nat
  | a :: b :: rest => do
    let n ← Text.number? 10 [a, b]
    if least ≤ n ∧ n ≤ greatest then some (n, rest) else none
  | _ => none

/-- The characters after a given one. -/
def mark? (c : Char) : List Char → Option (List Char)
  | a :: rest => if a = c then some rest else none
  | [] => none

def isLeapYear (year : Nat) : Bool :=
  year % 4 == 0 && (year % 100 != 0 || year % 400 == 0)

def daysOfMonth (year month : Nat) : Nat :=
  if month = 2 then if isLeapYear year then 29 else 28
  else if month ∈ [4, 6, 9, 11] then 30
  else 31

/-- The characters after a date. -/
def afterDate? (cs : List Char) : Option (List Char) := do
  let (century, rest) ← twoDigits 0 99 cs
  let (year, rest) ← twoDigits 0 99 rest
  let (month, rest) ← twoDigits 1 12 (← mark? '-' rest)
  let (_, rest) ← twoDigits 1 (daysOfMonth (100 * century + year) month) (← mark? '-' rest)
  return rest

/-- The characters after a time of day. -/
def afterTime? (cs : List Char) : Option (List Char) := do
  let (_, rest) ← twoDigits 0 23 cs
  let (_, rest) ← twoDigits 0 59 (← mark? ':' rest)
  let (_, rest) ← twoDigits 0 60 (← mark? ':' rest)
  match rest with
  | '.' :: c :: more =>
    return if Text.isDigit 10 c then more.dropWhile (Text.isDigit 10) else rest
  | _ => return rest

/-- The characters after an offset from universal time. -/
def afterOffset? : List Char → Option (List Char)
  | c :: rest =>
    if c == 'Z' || c == 'z' then some rest
    else do
      guard (c == '+' || c == '-')
      let (_, rest) ← twoDigits 0 23 rest
      let (_, rest) ← twoDigits 0 59 (← mark? ':' rest)
      return rest
  | [] => none

/-- The characters after a time that belongs to a date, if there is one. -/
def afterDateTime (cs : List Char) : List Char :=
  match cs with
  | c :: rest =>
    if c == 'T' || c == 't' || c == ' ' then
      match afterTime? rest with
      | some rest => (afterOffset? rest).getD rest
      | none => cs
    else cs
  | [] => []

/-- A date, a time, or both with or without an offset. -/
def datetime : Reader Value := fun cs =>
  match afterDate? cs with
  | some rest => some (.datetime, afterDateTime rest)
  | none => (afterTime? cs).map (.datetime, ·)

/-- A number or a date. -/
def number : Reader Value := fun cs =>
  (datetime cs).or ((decimalFloat cs).or ((specialFloat cs).or (integer cs)))

end TextureLift.Toml
