/-!
# Bit fields of words

A field of a 32-bit word is given by its offset and its number of bits. Fields of 32 or more bits
cover the whole word; bits past the top of the word are not part of any field. Offsets are below 32,
which the caller has to check.
-/

namespace TextureLift.Number.BitField

/-- The word whose low `count` bits are set. -/
def mask (count : UInt32) : UInt32 :=
  if 32 ≤ count then 0xffffffff else (1 <<< count) - 1

/-- Replaces the field of `base` by the low bits of `value`. -/
def insert (base value offset count : UInt32) : UInt32 :=
  let field := mask count <<< offset
  (base &&& ~~~field) ||| ((value <<< offset) &&& field)

/-- The field as an unsigned number. -/
def extract (base offset count : UInt32) : UInt32 :=
  (base >>> offset) &&& mask count

/-- Copies bit `count - 1` of a number into all higher bits. -/
def signExtend (value count : UInt32) : UInt32 :=
  if 0 < count ∧ count < 32 then
    let gap := (32 - count).toInt32
    ((value.toInt32 <<< gap) >>> gap).toUInt32
  else value

/-- The field as a two's complement number. -/
def extractSigned (base offset count : UInt32) : UInt32 :=
  signExtend (extract base offset count) count

end TextureLift.Number.BitField
