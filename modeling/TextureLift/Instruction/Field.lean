/-!
# Fields of instruction words

A field of a 64-bit instruction word is given by the position of its lowest bit and its width, which
is at most eight bits. `Field.get` reads a field and `Field.put` gives the word in which only that
field is set. `assemble` joins fields into one word; fields that do not overlap can be read back.
-/

namespace TextureLift

/-- A field of an instruction word. -/
structure Field where
  position : Nat
  width : Nat
  deriving DecidableEq, Repr

namespace Field

/-- The bits of the field, as a number. -/
def get (f : Field) (word : UInt64) : UInt8 :=
  .ofNat (word.toNat / Nat.pow 2 f.position % Nat.pow 2 f.width)

/-- Whether any bit of the field is set. -/
def test (f : Field) (word : UInt64) : Bool :=
  f.get word != 0

/-- The low bits of a value, moved to the field. -/
def put (f : Field) (value : UInt8) : UInt64 :=
  .ofNat (value.toNat % Nat.pow 2 f.width * Nat.pow 2 f.position)

/-- A one-bit field. -/
def flag (position : Nat) : Field := ⟨position, 1⟩

/-- The word in which each of the fields holds its value. -/
def assemble (fields : List (Field × UInt8)) : UInt64 :=
  fields.foldr (fun (f, value) word => f.put value ||| word) 0

end Field

end TextureLift
