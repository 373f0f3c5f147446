import TextureLift.Lowering.RegisterFile
import TextureLift.Number.BitField
import TextureLift.Number.Half

/-!
# Registers as numbers

What register accesses mean, without reference to the code that is emitted for them. The registers
are a function from places to words. Reading a lane of an operand decodes the bits of the lane;
writing one encodes a number and replaces the bits of the lane in its word. The widths of lanes, their
scales and the banks with storage are written out here, so that the code is measured against them.

All numbers are patterns of single-precision floats.
-/

namespace TextureLift

open Number

/-! ## Lanes of words -/

namespace Encoding

/-- How many lanes a word holds. -/
def wordLanes : Encoding → UInt32
  | u8 | s8 => 4
  | c10 => 3
  | f16 | u16 | s16 => 2
  | f32 | u32 | s32 => 1

theorem wordLanes_eq (e : Encoding) : e.wordLanes = e.lanesPerComponent := by
  cases e <;> decide

theorem lanesPerComponent_pos {e : Encoding} : 0 < e.lanesPerComponent := by
  cases e <;> decide

theorem bits_pos (e : Encoding) : 0 < e.bits.toNat := by
  cases e <;> decide

/-- The field of a lane ends within the word. -/
theorem field_le {e : Encoding} {lane : UInt32} (h : lane < e.lanesPerComponent) :
    lane.toNat * e.bits.toNat + e.bits.toNat ≤ 32 := by
  rw [UInt32.lt_iff_toNat_lt] at h
  cases e <;> simp only [lanesPerComponent, bits] at h ⊢ <;> simp at h ⊢ <;> omega

/-- The offset of a lane does not overflow. -/
theorem toNat_offset {e : Encoding} {lane : UInt32} (h : lane < e.lanesPerComponent) :
    (lane * e.bits).toNat = lane.toNat * e.bits.toNat := by
  have hle := field_le h
  rw [UInt32.toNat_mul]
  exact Nat.mod_eq_of_lt (by omega)

theorem offset_lt {e : Encoding} {lane : UInt32} (h : lane < e.lanesPerComponent) :
    lane * e.bits < 32 := by
  have hle := field_le h
  have hpos := e.bits_pos
  rw [UInt32.lt_iff_toNat_lt, toNat_offset h]
  show _ < 32
  omega

/-- The number that lane `lane` of a word stands for. Fixed-point numbers count in steps of 1/255,
which is `0x3b808081` as a float. -/
def decodeLane (e : Encoding) (word lane : UInt32) : UInt32 :=
  match e with
  | f32 => word
  | f16 => Half.toSingle (if lane = 0 then Half.low word else Half.high word)
  | u32 => Single.ofUnsigned word
  | s32 => Single.ofSigned word
  | c10 => Single.mul (Single.ofSigned (BitField.extractSigned word (lane * 10) 10)) 0x3b808081
  | u8 => Single.ofUnsigned (BitField.extract word (lane * 8) 8)
  | u16 => Single.ofUnsigned (BitField.extract word (lane * 16) 16)
  | s8 => Single.ofSigned (BitField.extractSigned word (lane * 8) 8)
  | s16 => Single.ofSigned (BitField.extractSigned word (lane * 16) 16)

/-- The number that element `n` of consecutive words stands for. -/
def element (e : Encoding) (words : List UInt32) (n : UInt32) : UInt32 :=
  e.decodeLane (words.getD (n / e.wordLanes).toNat 0) (n % e.wordLanes)

theorem element_eq (e : Encoding) (words : List UInt32) (n : UInt32) : e.element words n =
    e.decodeLane (words.getD (n / e.lanesPerComponent).toNat 0) (n % e.lanesPerComponent) := by
  unfold element
  rw [wordLanes_eq]

/-- The integer nearest to a number that has been brought into an interval. -/
def saturated (signed : Bool) (lo hi : Int) (x : UInt32) : UInt32 :=
  let clamped := Single.clamp (Single.roundAway x) (Single.ofInt lo) (Single.ofInt hi)
  if signed then Single.toSigned clamped else Single.toUnsigned clamped

/-- The bits that stand for a number, in the low bits of a word. -/
def encodeNumber (e : Encoding) (x : UInt32) : UInt32 :=
  match e with
  | f32 => x
  | f16 => (Half.ofSingle x).toUInt32
  | c10 => saturated true (-512) 511 (Single.mul x (Single.ofInt 255))
  | u8 => saturated false 0 255 x
  | s8 => saturated true (-128) 127 x
  | u16 => saturated false 0 65535 x
  | s16 => saturated true (-32768) 32767 x
  | u32 => saturated false 0 4294967040 x
  | s32 => saturated true (-2147483648) 2147483520 x

/-- The word in which lane `lane` stands for a number and the other lanes are as before. -/
def putLane (e : Encoding) (word lane x : UInt32) : UInt32 :=
  let bits := e.encodeNumber x
  match e with
  | u8 | s8 => BitField.insert word bits (lane * 8) 8
  | c10 => BitField.insert word bits (lane * 10) 10
  | f16 | u16 | s16 => BitField.insert word bits (lane * 16) 16
  | f32 | u32 | s32 => bits

theorem putLane_eq (e : Encoding) (word lane x : UInt32) :
    e.putLane word lane x = if e.lanesPerComponent = 1 then e.encodeNumber x
      else BitField.insert word (e.encodeNumber x) (lane * e.bits) e.bits := by
  cases e <;> rfl

end Encoding

/-! ## Places -/

/-- A component of the register file. -/
structure Place where
  bank : Bank
  window : UInt8
  component : UInt32
  deriving DecidableEq, Repr

/-- The slot that a place lies in. -/
def Place.slot (p : Place) : Slot :=
  ⟨p.bank, p.window, p.component / 4⟩

theorem Place.lane_lt (p : Place) : (p.component % 4).toNat < 4 :=
  UInt32.mod_lt p.component (by decide)

/-- Places of the same slot and lane are the same. -/
theorem Place.ext_slot {p q : Place} (hs : p.slot = q.slot)
    (hl : (p.component % 4).toNat = (q.component % 4).toNat) : p = q := by
  obtain ⟨bank, window, c⟩ := p
  obtain ⟨bank', window', c'⟩ := q
  obtain ⟨rfl, rfl, hi⟩ := Slot.mk.inj hs
  have h1 := congrArg UInt32.toNat hi
  rw [UInt32.toNat_div, UInt32.toNat_div] at h1
  rw [UInt32.toNat_mod, UInt32.toNat_mod] at hl
  have h2 : c.toNat = c'.toNat := by
    rw [← Nat.div_add_mod c.toNat 4, ← Nat.div_add_mod c'.toNat 4]
    exact congr (congrArg _ (congrArg _ h1)) hl
  rw [UInt32.toNat_inj.1 h2]

/-- The words of all places. -/
abbrev Registers := Place → UInt32

/-- The registers with one word replaced. -/
def Registers.set (r : Registers) (place : Place) (word : UInt32) : Registers :=
  fun p => if p = place then word else r p

/-! ## Operands -/

namespace Operand

variable (op : Operand)

/-- The component that holds an element. -/
def componentAt (element : UInt32) : UInt32 :=
  op.index + element / op.encoding.wordLanes

theorem componentAt_eq (element : UInt32) :
    op.componentAt element = op.index + element / op.encoding.lanesPerComponent := by
  unfold componentAt
  rw [Encoding.wordLanes_eq]

/-- Whether a bank of `slots` slots has storage for an element. -/
def hasStorage (slots : UInt32) (element : UInt32) : Bool :=
  [Bank.temp, .primAttr, .secAttr, .output, .fpInternal].contains op.bank &&
    op.index.toNat + (element / op.encoding.wordLanes).toNat < 4 * slots.toNat

/-- Whether some lanes can be read. -/
def readable (slots : UInt32) (lanes : List (Fin 4)) : Bool :=
  op.bank = .immediate || lanes.all fun lane =>
    match (op.swizzle.channel lane).element? with
    | none => true
    | some element => op.hasStorage slots element

/-- The number that a lane of an operand reads from a window. -/
def readLane (r : Registers) (window : UInt8) (lane : Fin 4) : UInt32 :=
  let channel := op.swizzle.channel lane
  match channel.element? with
  | none => if channel = .one then Single.one else Single.zero
  | some element =>
    if op.bank = .immediate then Single.ofUnsigned op.index
    else op.encoding.decodeLane (r ⟨op.bank, window, op.componentAt element⟩)
      (element % op.encoding.wordLanes)

/-- The numbers that some lanes read. -/
def read (r : Registers) (window : UInt8) (lanes : List (Fin 4)) : List UInt32 :=
  lanes.map (op.readLane r window)

/-- The registers after a number was written to an element. Elements without storage are dropped. -/
def writeLane (slots : UInt32) (r : Registers) (element x : UInt32) : Registers :=
  if op.hasStorage slots element then
    let place : Place := ⟨op.bank, Window.primary, op.componentAt element⟩
    r.set place (op.encoding.putLane (r place) (element % op.encoding.wordLanes) x)
  else r

/-- The registers after the first numbers of a list were written, each to the element of its own
position. -/
def write (slots : UInt32) (r : Registers) (count : Nat) (xs : List UInt32) : Registers :=
  (List.range count).foldl
    (fun r n => op.writeLane slots r (.ofNat n) (xs.getD n Single.zero)) r

end Operand

end TextureLift
