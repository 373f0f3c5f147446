import TextureLift.Machine.Value
import TextureLift.Proofs.Lowering.Plan
import TextureLift.Proofs.Number.BitField

/-!
# Fields of registers

Each element of an operand has a field of bits in one word of the registers: `Operand.Occupies` says
which bits these are. Storing a lane replaces its field and nothing else, and the fields of two lanes
have no bit in common, so of the lanes of a mask each field keeps the bits that were stored in it:

    testBit_placeLanes            the bits in the field of a lane are those of its word
    testBit_placeLanes_outside    the bits in no such field are as they were
-/

namespace TextureLift

open Number

/-! ## Fields of words -/

namespace Encoding

variable {e : Encoding} {word lane v : UInt32}

/-- What is stored for a lane of a value: a float is encoded, an integer is stored as it is. -/
def storedWord (e : Encoding) (k : ScalarKind) (y : UInt32) : UInt32 :=
  if k = .f32 then e.encodeNumber y else y

/-- The word with the field of one lane replaced by the low bits of another word. -/
def putBits (e : Encoding) (word lane v : UInt32) : UInt32 :=
  if e.lanesPerComponent = 1 then v else BitField.insert word v (lane * e.bits) e.bits

theorem bits_of_whole (h : e.lanesPerComponent = 1) : e.bits.toNat = 32 := by
  cases e <;> first | rfl | exact absurd h (by decide)

theorem testBit_putBits (h : lane < e.lanesPerComponent) (j : Nat) :
    (e.putBits word lane v).toNat.testBit j =
      if lane.toNat * e.bits.toNat ≤ j ∧ j < lane.toNat * e.bits.toNat + e.bits.toNat then
        v.toNat.testBit (j - lane.toNat * e.bits.toNat)
      else word.toNat.testBit j := by
  have hle := field_le h
  have hpos := e.bits_pos
  unfold putBits
  by_cases hone : e.lanesPerComponent = 1
  · -- the field is the whole word
    have hlane : lane.toNat = 0 := by
      rw [hone, UInt32.lt_iff_toNat_lt] at h
      exact Nat.lt_one_iff.1 h
    rw [if_pos hone, bits_of_whole hone, hlane]
    by_cases hj : j < 32
    · rw [if_pos (by omega)]
      congr 1
    · rw [if_neg (by omega), BitField.testBit_of_ge v (Nat.le_of_not_lt hj),
        BitField.testBit_of_ge word (Nat.le_of_not_lt hj)]
  · have hoffset := toNat_offset h
    rw [if_neg hone, BitField.testBit_insert (by omega) (by omega), hoffset]

end Encoding

/-! ## Fields of operands -/

namespace Operand

variable {op : Operand} {slots element element' w : UInt32} {r : Registers} {p : Place} {j : Nat}

/-- The place of an element. -/
def target (op : Operand) (element : UInt32) : Place :=
  ⟨op.bank, Window.primary, op.componentAt element⟩

/-- The lowest bit of the field of an element. -/
def fieldStart (op : Operand) (element : UInt32) : Nat :=
  (element % op.encoding.lanesPerComponent).toNat * op.encoding.bits.toNat

/-- The element has storage, and bit `j` of place `p` lies in its field. -/
structure Occupies (op : Operand) (slots element : UInt32) (p : Place) (j : Nat) : Prop where
  stored : op.hasStorage slots element = true
  place : p = op.target element
  low : op.fieldStart element ≤ j
  high : j < op.fieldStart element + op.encoding.bits.toNat

/-- The registers after a word was stored as an element. Elements without storage are dropped. -/
def placeBits (op : Operand) (slots : UInt32) (r : Registers) (element w : UInt32) : Registers :=
  if op.hasStorage slots element then
    r.set (op.target element) (op.encoding.putBits (r (op.target element))
      (element % op.encoding.lanesPerComponent) w)
  else r

/-- To write a number is to store the word that it is encoded as. -/
theorem writeLane_eq (op : Operand) (slots : UInt32) (r : Registers) (element x : UInt32) :
    op.writeLane slots r element x = op.placeBits slots r element (op.encoding.encodeNumber x) := by
  unfold writeLane placeBits Encoding.putBits
  rw [Encoding.wordLanes_eq]
  simp only [Encoding.putLane_eq]
  rfl

theorem lane_lt (op : Operand) (element : UInt32) :
    element % op.encoding.lanesPerComponent < op.encoding.lanesPerComponent :=
  UInt32.mod_lt element (by cases op.encoding <;> decide)

theorem testBit_placeBits (h : op.Occupies slots element p j) :
    (op.placeBits slots r element w p).toNat.testBit j = w.toNat.testBit (j - op.fieldStart element) := by
  unfold placeBits Registers.set
  rw [if_pos h.stored]
  simp only [if_pos h.place]
  rw [Encoding.testBit_putBits (op.lane_lt element)]
  exact if_pos ⟨h.low, h.high⟩

theorem testBit_placeBits_outside (h : ¬ op.Occupies slots element p j) :
    (op.placeBits slots r element w p).toNat.testBit j = (r p).toNat.testBit j := by
  unfold placeBits Registers.set
  by_cases hs : op.hasStorage slots element = true
  · rw [if_pos hs]
    by_cases hp : p = op.target element
    · simp only [if_pos hp]
      rw [Encoding.testBit_putBits (op.lane_lt element), if_neg, hp]
      intro hj
      exact h ⟨hs, hp, hj.1, hj.2⟩
    · simp only [if_neg hp]
  · rw [if_neg hs]

/-- Fields of different elements have no bit in common. -/
theorem Occupies.unique (h : op.Occupies slots element p j) (h' : op.Occupies slots element' p j)
    (hw : op.InWords element) (hw' : op.InWords element') : element = element' := by
  have hpos := op.encoding.bits_pos
  have hcomponent : (op.componentAt element).toNat = (op.componentAt element').toNat :=
    congrArg (fun q : Place => q.component.toNat) (h.place.symm.trans h'.place)
  rw [hw.toNat_componentAt, hw'.toNat_componentAt, UInt32.toNat_div, UInt32.toNat_div] at hcomponent
  -- the bit tells the lane, its component tells the rest
  have hlane (q : UInt32) (hq : op.Occupies slots q p j) :
      j / op.encoding.bits.toNat = q.toNat % op.encoding.lanesPerComponent.toNat := by
    have hlow := hq.low
    have hhigh := hq.high
    unfold fieldStart at hlow hhigh
    rw [UInt32.toNat_mod] at hlow hhigh
    refine Nat.div_eq_of_lt_le hlow ?_
    rw [Nat.succ_mul]
    exact hhigh
  have hmod := (hlane element h).symm.trans (hlane element' h')
  rw [← UInt32.toNat_inj, ← Nat.div_add_mod element.toNat op.encoding.lanesPerComponent.toNat,
    ← Nat.div_add_mod element'.toNat op.encoding.lanesPerComponent.toNat, hmod,
    Nat.add_left_cancel hcomponent]

/-! ## Fields of several lanes -/

/-- The registers after words were stored as the elements of some lanes. -/
def placeLanes (op : Operand) (slots : UInt32) (r : Registers) (words : Fin 4 → UInt32)
    (lanes : List (Fin 4)) : Registers :=
  lanes.foldl (fun r lane => op.placeBits slots r (.ofNat lane.val) (words lane)) r

variable {words : Fin 4 → UInt32} {lanes : List (Fin 4)}

theorem testBit_placeLanes_outside
    (h : ∀ lane ∈ lanes, ¬ op.Occupies slots (.ofNat lane.val) p j) :
    (op.placeLanes slots r words lanes p).toNat.testBit j = (r p).toNat.testBit j := by
  unfold placeLanes
  induction lanes generalizing r with
  | nil => rfl
  | cons lane lanes ih =>
    rw [List.foldl_cons, ih fun l hl => h l (List.mem_cons_of_mem lane hl)]
    exact testBit_placeBits_outside (h lane List.mem_cons_self)

/-- Lanes are told apart by their elements. -/
theorem lane_of_element {lane lane' : Fin 4}
    (h : UInt32.ofNat lane.val = UInt32.ofNat lane'.val) : lane = lane' := by
  revert lane lane'
  decide

/-- A later lane does not touch the field of an earlier one. -/
theorem testBit_placeLanes (hw : ∀ lane : Fin 4, op.InWords (.ofNat lane.val)) (hn : lanes.Nodup)
    {lane : Fin 4} (hlane : lane ∈ lanes) (h : op.Occupies slots (.ofNat lane.val) p j) :
    (op.placeLanes slots r words lanes p).toNat.testBit j =
      (words lane).toNat.testBit (j - op.fieldStart (.ofNat lane.val)) := by
  induction lanes generalizing r with
  | nil => cases hlane
  | cons first lanes ih =>
    obtain ⟨hfirst, hn⟩ := List.nodup_cons.1 hn
    rcases List.mem_cons.1 hlane with rfl | hlane
    · unfold placeLanes
      rw [List.foldl_cons]
      refine (testBit_placeLanes_outside fun l hl hl' => hfirst ?_).trans (testBit_placeBits h)
      rwa [lane_of_element (h.unique hl' (hw _) (hw l))]
    · exact ih hn hlane

end Operand

theorem LaneMask.nodup_lanes (mask : LaneMask) : mask.lanes.Nodup :=
  List.Pairwise.filter _ (by decide)

end TextureLift
