/-!
# Binary interchange formats

A format is given by the widths of its exponent and fraction fields. `Format.decode` reads a bit
pattern as a datum: a NaN, an infinity, or a finite number `± significand · 2 ^ exponent`.
`Format.roundMagnitude` goes the other way for numbers of any precision: it rounds to nearest, ties
to even, and returns the bit pattern of the magnitude. Arithmetic on patterns is then exact
arithmetic on naturals followed by one rounding.

Patterns of magnitudes are ordered like the numbers they stand for. The pattern of a kept
significand `k` whose last place has the weight `2 ^ q` is `(q - lastPlace) * 2 ^ fractionBits + k`,
whether the number is subnormal, normal, or carried into the next binade by the rounding.
-/

namespace TextureLift.Number

/-- Widths of the fields of a binary floating-point pattern. -/
structure Format where
  exponentBits : Nat
  fractionBits : Nat
  deriving DecidableEq, Repr

/-- What a bit pattern stands for. -/
inductive Datum where
  /-- A NaN with its fraction field, quiet bit included. -/
  | nan (negative : Bool) (fraction : Nat)
  | infinite (negative : Bool)
  /-- The number `± significand * 2 ^ exponent`. -/
  | finite (negative : Bool) (significand : Nat) (exponent : Int)
  deriving DecidableEq, Repr

/-- The quotient `m / 2 ^ d` rounded to the nearest integer, ties to even. -/
def shiftRightNearest (m d : Nat) : Nat :=
  let q := m / Nat.pow 2 d
  let r := m % Nat.pow 2 d
  if 2 * r < Nat.pow 2 d then q
  else if 2 * r = Nat.pow 2 d then q + q % 2
  else q + 1

/-- The integer part of `m * 2 ^ e`. -/
def truncate (m : Nat) (e : Int) : Nat :=
  if 0 ≤ e then m * Nat.pow 2 e.toNat else m / Nat.pow 2 (-e).toNat

/-- The integer nearest to `m * 2 ^ e`, ties away from zero. -/
def nearestAway (m : Nat) (e : Int) : Nat :=
  if 0 ≤ e then m * Nat.pow 2 e.toNat else (2 * m / Nat.pow 2 (-e).toNat + 1) / 2

namespace Format

/-- The 32-bit format. -/
def single : Format := ⟨8, 23⟩

/-- The 16-bit format. -/
def half : Format := ⟨5, 10⟩

/-- Every finite number of the format is a multiple of `2 ^ lastPlace`. -/
def lastPlace (f : Format) : Int :=
  2 - Nat.pow 2 (f.exponentBits - 1) - f.fractionBits

/-- The pattern of positive infinity; finite magnitudes have smaller ones. -/
def infinity (f : Format) : Nat :=
  (Nat.pow 2 f.exponentBits - 1) * Nat.pow 2 f.fractionBits

/-- Weight of the sign bit. -/
def signWeight (f : Format) : Nat :=
  Nat.pow 2 (f.exponentBits + f.fractionBits)

/-- Weight of the fraction bit that tells quiet NaNs from signalling ones. -/
def quietWeight (f : Format) : Nat :=
  Nat.pow 2 (f.fractionBits - 1)

/-- Puts a sign in front of the pattern of a magnitude. -/
def withSign (f : Format) (negative : Bool) (magnitude : Nat) : Nat :=
  if negative then f.signWeight + magnitude else magnitude

/-- Reads a bit pattern. -/
def decode (f : Format) (bits : Nat) : Datum :=
  let negative := bits / f.signWeight % 2 == 1
  let exponent := bits / Nat.pow 2 f.fractionBits % Nat.pow 2 f.exponentBits
  let fraction := bits % Nat.pow 2 f.fractionBits
  if exponent = Nat.pow 2 f.exponentBits - 1 then
    if fraction = 0 then .infinite negative else .nan negative fraction
  else if exponent = 0 then
    .finite negative fraction f.lastPlace
  else
    .finite negative (Nat.pow 2 f.fractionBits + fraction) (f.lastPlace + (exponent - 1))

/-- Pattern of the number of the format nearest to `m * 2 ^ e`, ties to even. Numbers past the
largest finite one by half a unit or more become infinite. -/
def roundMagnitude (f : Format) (m : Nat) (e : Int) : Nat :=
  if m = 0 then 0
  else
    let q := max f.lastPlace (e + m.log2 - f.fractionBits)
    let kept := if q ≤ e then m * Nat.pow 2 (e - q).toNat else shiftRightNearest m (q - e).toNat
    min ((q - f.lastPlace).toNat * Nat.pow 2 f.fractionBits + kept) f.infinity

/-- Pattern of the number of the format nearest to `± m * 2 ^ e`. -/
def round (f : Format) (negative : Bool) (m : Nat) (e : Int) : Nat :=
  f.withSign negative (f.roundMagnitude m e)

/-- Pattern of the quiet NaN with the given sign and fraction. -/
def quietNaN (f : Format) (negative : Bool) (fraction : Nat) : Nat :=
  f.withSign negative (f.infinity + (fraction ||| f.quietWeight))

end Format

end TextureLift.Number
