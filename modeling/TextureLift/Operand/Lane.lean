/-!
# Lanes, masks and swizzles

An operand has four lanes. A mask selects some of them; a swizzle says for each lane which element
of the register it reads, or that it is a constant.
-/

namespace TextureLift

/-- There is a first lane. -/
instance four_neZero : @NeZero Nat Zero.ofOfNat0 4 := ⟨by decide⟩

/-- A set of lanes; bit 0 is the first. -/
structure LaneMask where
  bits : BitVec 4
  deriving DecidableEq, Repr

namespace LaneMask

/-- The mask of the low four bits of a byte. -/
def ofByte (byte : UInt8) : LaneMask :=
  ⟨.ofNat 4 byte.toNat⟩

def empty : LaneMask := ⟨0⟩

/-- The first `count` lanes; all four if there are more. -/
def first (count : UInt8) : LaneMask :=
  ⟨.ofNat 4 (Nat.pow 2 (min count.toNat 4) - 1)⟩

/-- The lane at an index alone. -/
def single (lane : Fin 4) : LaneMask :=
  ⟨.ofNat 4 (Nat.pow 2 lane.val)⟩

def union (a b : LaneMask) : LaneMask :=
  ⟨a.bits ||| b.bits⟩

def isEmpty (m : LaneMask) : Bool :=
  m.bits == 0

def contains (m : LaneMask) (lane : Fin 4) : Bool :=
  m.bits[lane.val]

/-- The lanes of the mask in ascending order. -/
def lanes (m : LaneMask) : List (Fin 4) :=
  [0, 1, 2, 3].filter m.contains

def count (m : LaneMask) : Nat :=
  m.lanes.length

end LaneMask

/-- What one lane of an operand reads. -/
inductive Channel where
  | x
  | y
  | z
  | w
  | zero
  | one
  deriving DecidableEq, Repr

namespace Channel

def all : List Channel :=
  [x, y, z, w, zero, one]

/-- The element of the register that the channel reads, if it reads any. -/
def element? : Channel → Option UInt32
  | x => some 0
  | y => some 1
  | z => some 2
  | w => some 3
  | zero | one => none

def letter : Channel → Char
  | x => 'x'
  | y => 'y'
  | z => 'z'
  | w => 'w'
  | zero => '0'
  | one => '1'

def ofLetter? (c : Char) : Option Channel :=
  all.find? (·.letter == c)

end Channel

/-- The channels of the four lanes. -/
structure Swizzle where
  x : Channel := .x
  y : Channel := .y
  z : Channel := .z
  w : Channel := .w
  deriving DecidableEq, Repr

namespace Swizzle

/-- Every lane reads its own element. -/
def identity : Swizzle := {}

def channel (s : Swizzle) : Fin 4 → Channel
  | 0 => s.x
  | 1 => s.y
  | 2 => s.z
  | 3 => s.w

def channels (s : Swizzle) : List Channel :=
  [s.x, s.y, s.z, s.w]

/-- Reads four letters. -/
def ofString? (s : String) : Option Swizzle :=
  match s.toList.mapM Channel.ofLetter? with
  | some [first, second, third, fourth] => some ⟨first, second, third, fourth⟩
  | _ => none

end Swizzle

end TextureLift
