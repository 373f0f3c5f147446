import TextureLift.Proofs.Lowering.Ledger
import TextureLift.Proofs.Lowering.Saturate
import TextureLift.Proofs.Semantics.Field

/-!
# Stores of registers

Storing the lanes of a value writes the registers as `Operand.placeLanes` says: each lane is encoded,
merged into the word that it shares with others, and dropped if there is no storage for it.

    store op value mask    leaves the registers
      op.placeLanes (L.slots s) (L.state s).registers words mask.lanes

where `words` has the encoded lanes of the value.
-/

namespace TextureLift

open Builder Build Discipline Lowering Number

/-! ## Encoded lanes -/

theorem Number.Half.pack_zero (h : UInt16) :
    Half.pack h (Half.ofSingle Single.zero) = h.toUInt32 := by
  have hz : Half.ofSingle Single.zero = 0 := by decide
  rw [hz]
  unfold Half.pack
  simp

namespace Encoding

variable {e : Encoding} {k : ScalarKind}

/-- The kind of the lanes that are stored for floats under an encoding. -/
def encodedKind (e : Encoding) : ScalarKind :=
  if e.isFloat then .f32 else Environment.integerKind e.isSigned

/-- A number on its way to the registers: floats are packed only when they are stored. -/
def encodedLane (e : Encoding) (y : UInt32) : UInt32 :=
  if e.isFloat then y else e.encodeNumber y

theorem map_encodedLane (h : e.isFloat = true) (ys : List UInt32) : ys.map e.encodedLane = ys := by
  have hid : e.encodedLane = id := funext fun _ => if_pos h
  rw [hid, List.map_id]

/-- The bits of an encoded lane, in the low bits of a word. -/
def laneWord (e : Encoding) (v : UInt32) : UInt32 :=
  if e = .f16 then (Half.ofSingle v).toUInt32 else v

theorem laneWord_encodedLane (y : UInt32) : e.laneWord (e.encodedLane y) = e.encodeNumber y := by
  cases e <;> rfl

/-- The kind of the lanes that are stored for a value of kind `k`. -/
def storedKind (e : Encoding) (k : ScalarKind) : ScalarKind :=
  if k = .f32 then e.encodedKind else k

/-- A lane of a value of kind `k` on its way to the registers. -/
def storedLane (e : Encoding) (k : ScalarKind) (y : UInt32) : UInt32 :=
  if k = .f32 then e.encodedLane y else y

/-- The word that is stored for a lane: of its own number, or of the last. -/
def wordFor (e : Encoding) (k : ScalarKind) (ys : List UInt32) (lane : Nat) : UInt32 :=
  e.storedWord k (ys.getD (min lane (ys.length - 1)) 0)

/-- Floats can be stored under all encodings and integers under those of integers. -/
def Storable (e : Encoding) (k : ScalarKind) : Prop :=
  k = .f32 ∨ e.isInteger = true

theorem Storable.laneWord (h : Storable e k) (y : UInt32) :
    e.laneWord (e.storedLane k y) = e.storedWord k y := by
  unfold storedLane storedWord
  by_cases hk : k = .f32
  · rw [if_pos hk, if_pos hk, laneWord_encodedLane]
  · have h16 : e ≠ .f16 := by
      rintro rfl
      exact absurd (h.resolve_left hk) (by decide)
    rw [if_neg hk, if_neg hk]
    exact if_neg h16

/-- Only floats are packed as halves. -/
theorem Storable.half (h : Storable e k) (he : e = .f16) : e.storedKind k = .f32 := by
  subst he
  rcases h with rfl | h
  · rfl
  · cases h

end Encoding

theorem LaneMask.lanes_of_isEmpty {mask : LaneMask} (h : mask.isEmpty = true) : mask.lanes = [] := by
  have hb : mask.bits = 0 := eq_of_beq h
  obtain ⟨bits⟩ := mask
  subst hb
  rfl

/-! ## Stores in steps -/

namespace Emit

/-- The lane of an encoded value of `count` lanes that is stored for a lane of a mask. -/
def pickLane (encoded : Ref) (count lane : UInt32) : Build Ref :=
  if 1 < count then extract encoded (min lane (count - 1)) else pure encoded

/-- Stores one encoded lane in a component. -/
def placeLane (op : Operand) (component lane : UInt32) (value : Ref) : Emit Unit := do
  if op.encoding.lanesPerComponent = 1 then
    let float ← if (← get).builder.isFloat value then pure value
      else bitcast (← floatType 32) value
    Emit.storeComponent op.bank Window.primary component float
  else
    let bits ← Emit.laneBits op.encoding value
    let raw ← Emit.loadComponent op.bank Window.primary component
    let merged ← Emit.mergeLane op.encoding raw bits (lane % op.encoding.lanesPerComponent)
    Emit.storeComponent op.bank Window.primary component merged

/-- A store picks a lane and places it. -/
theorem storeLane_eq (op : Operand) (encoded : Ref) (count lane : UInt32) :
    Emit.storeLane op encoded count lane = (do
      let component ← RegisterFile.componentOf op lane
      if ← Emit.inRange op.bank component then
        let value ← pickLane encoded count lane
        placeLane op component lane value) := by
  unfold Emit.storeLane pickLane placeLane
  refine bind_congr fun component => bind_congr fun inRange => ?_
  cases inRange with
  | false => rfl
  | true =>
    by_cases hc : 1 < count
    · simp only [if_pos hc]
    · simp only [if_neg hc]
      rfl

end Emit

namespace Reckoning

variable {R : Reckoning} {b : Builder} {e : Encoding} {k : ScalarKind} {value : Ref}
  {ys : List UInt32}

/-- Floats are converted as the encoding says. -/
theorem encodeFloats_ensures (hv : R.Holds b value .f32 ys) (hshort : R.Admits ys.length) :
    R.quiet.Ensures (Emit.encodeValue e value) b fun id b' =>
      R.Holds b' id e.encodedKind (ys.map e.encodedLane) := by
  refine Ensures.get_bind ?_
  rw [(carries_of_holds hv).isFloat, decide_eq_true rfl, Bool.and_true]
  by_cases hi : e.isInteger = true
  · have hkind : e.encodedKind = Environment.integerKind e.isSigned ∧
        e.encodedLane = e.encodeNumber := by
      cases e <;> first | exact ⟨rfl, rfl⟩ | cases hi
    rw [if_pos hi, hkind.1, hkind.2]
    exact saturateTo_ensures hv hshort hi
  · rw [if_neg hi]
    cases e with
    | f32 | f16 =>
      refine Ensures.pure _ ?_
      rw [Encoding.map_encodedLane rfl]
      exact hv
    | c10 => exact saturateFixed_ensures hv hshort
    | u8 | s8 | u16 | s16 | u32 | s32 => exact absurd rfl hi

/-- Integers are left as they are under the encodings of integers. -/
theorem encodeIntegers_ensures (hv : R.Holds b value k ys) (hk : k ≠ .f32)
    (hi : e.isInteger = true) :
    R.quiet.Ensures (Emit.encodeValue e value) b fun id b' => R.Holds b' id k ys := by
  have hc : e ≠ .c10 := by
    rintro rfl
    cases hi
  refine Ensures.get_bind ?_
  rw [(carries_of_holds hv).isFloat, decide_eq_false hk, Bool.and_false, if_neg (by decide),
    if_neg hc]
  exact Ensures.pure _ hv

/-- Floats are converted as the encoding says, integers are left as they are. -/
theorem encodeValue_ensures (h : e.Storable k) (hv : R.Holds b value k ys)
    (hshort : R.Admits ys.length) :
    R.quiet.Ensures (Emit.encodeValue e value) b fun id b' =>
      R.Holds b' id (e.storedKind k) (ys.map (e.storedLane k)) := by
  by_cases hk : k = .f32
  · have hkind : e.storedKind k = e.encodedKind := if_pos hk
    have hlane : e.storedLane k = e.encodedLane := funext fun _ => if_pos hk
    rw [hkind, hlane]
    subst hk
    exact encodeFloats_ensures hv hshort
  · have hkind : e.storedKind k = k := if_neg hk
    have hlane : e.storedLane k = id := funext fun _ => if_neg hk
    rw [hkind, hlane, List.map_id]
    exact encodeIntegers_ensures hv hk (h.resolve_left hk)

/-- The bits of a lane of a packed encoding. -/
theorem laneBits_ensures {v : UInt32} (h : e = .f16 → k = .f32) (hv : R.Holds b value k [v]) :
    R.quiet.Ensures (Emit.laneBits e value) b fun id b' =>
      R.Holds b' id .u32 [e.laneWord v] := by
  unfold Emit.laneBits Encoding.laneWord
  refine (R.scalarType_ensures .u32).bind fun uint b₁ q₁ huint => ?_
  have huint := R.lanes_of_decl huint
  by_cases he : e = .f16
  · rw [if_pos he, if_pos he]
    rw [h he] at hv
    refine (R.floatConstant_ensures _).bind fun zero b₂ q₂ hzero => ?_
    refine (R.floatVectorType_ensures 2).bind fun vec b₃ q₃ hvec => ?_
    have q₂₃ := R.quiet.trans q₂ q₃
    have hpair : R.HoldEach b₃ [value, zero] [v, Single.zero] :=
      .cons (R.holds_mono hv (R.quiet.trans q₁ q₂₃)) (.cons (R.holds_mono hzero q₃) .nil)
    refine (construct_ensures hpair (R.admits_of_le (by simp)) (R.lanes_of_laneType hvec)).bind
      fun pair b₄ q₄ hpair => ?_
    have hpack := packHalf2x16_ensures hpair (R.lanes_mono huint (R.quiet.trans q₂₃ q₄))
    rw [Half.pack_zero] at hpack
    exact hpack
  · rw [if_neg he, if_neg he]
    exact bitcast_ensures (R.bears_of_holds (R.holds_mono hv q₁)) huint

/-- A component with the bits of one lane replaced. -/
theorem mergeLane_ensures {raw bits : Ref} {w y lane : UInt32} (hr : R.Holds b raw .f32 [w])
    (hb : R.Holds b bits .u32 [y]) (hl : lane < e.lanesPerComponent) :
    R.quiet.Ensures (Emit.mergeLane e raw bits lane) b fun id b' =>
      R.Holds b' id .f32 [BitField.insert w y (lane * e.bits) e.bits] := by
  unfold Emit.mergeLane
  refine (R.scalarType_ensures .u32).bind fun uint b₁ q₁ huint => ?_
  have huint := R.lanes_of_decl huint
  refine (bitcast_ensures (R.bears_of_holds (R.holds_mono hr q₁)) huint).bind
    fun old b₂ q₂ hold => ?_
  refine (laneOffset_ensures hl).bind fun v b' _ h => ?_
  obtain ⟨rfl, rfl⟩ := h
  refine (R.uintConstant_ensures _).bind fun offset b₃ q₃ hoffset => ?_
  refine (R.uintConstant_ensures _).bind fun count b₄ q₄ hcount => ?_
  have q := R.quiet.trans q₃ q₄
  have q₂₄ := R.quiet.trans q₂ q
  refine (bitFieldInsert_ensures (R.holds_mono hold q) (R.holds_mono hoffset q₄) hcount
    (Encoding.offset_lt hl) (R.lanes_mono huint q₂₄)
    (R.holds_mono hb (R.quiet.trans q₁ q₂₄))).bind fun merged b₅ q₅ hmerged => ?_
  refine (R.scalarType_ensures .f32).bind fun float b₆ q₆ hfloat => ?_
  exact bitcast_ensures (R.bears_of_holds (R.holds_mono hmerged q₆)) (R.lanes_of_decl hfloat)

/-- The lane that is picked for a lane of a mask: its own one, or the last. -/
theorem pickLane_ensures {encoded : Ref} {count lane : UInt32} (hv : R.Holds b encoded k ys)
    (hlen : ys.length = count.toNat) (hpos : 0 < ys.length) :
    R.quiet.Ensures (Emit.pickLane encoded count lane) b fun id b' =>
      R.Holds b' id k [ys.getD (min lane.toNat (ys.length - 1)) 0] := by
  have hle : (1 : UInt32) ≤ count := by
    rw [UInt32.le_iff_toNat_le, ← hlen]
    exact hpos
  have hmin : (min lane (count - 1)).toNat = min lane.toNat (ys.length - 1) := by
    rw [UInt32.toNat_min, UInt32.toNat_sub_of_le _ _ hle, hlen]
    rfl
  have hlt : min lane.toNat (ys.length - 1) < ys.length := by omega
  unfold Emit.pickLane
  by_cases hc : 1 < count
  · rw [if_pos hc]
    refine extract_ensures (R.bears_of_holds hv) ?_
    rw [hmin, List.getD_eq_getElem?_getD, List.getElem?_eq_getElem hlt]
    rfl
  · rw [if_neg hc]
    have hone : ys.length = 1 := by
      have h1 : ¬ 1 < count.toNat := hc
      omega
    obtain ⟨y, rfl⟩ := List.length_eq_one_iff.1 hone
    have h0 : min lane.toNat ([y].length - 1) = 0 := by simp
    rw [h0]
    exact Ensures.pure _ hv

end Reckoning

/-! ## Stores -/

namespace Ledger

variable {L : Ledger} {s : Emitter} {value : Ref} {k : ScalarKind} {ys : List UInt32} {op : Operand}

section Place

variable {component lane y : UInt32} (h : op.encoding.Storable k)
  (hv : L.Gives s value (op.encoding.storedKind k) [op.encoding.storedLane k y])

include h hv

/-- A lane of 32 bits is stored as the whole word, as a float. -/
theorem placeWhole_ensures (hone : op.encoding.lanesPerComponent = 1) :
    L.moving.Ensures (Emit.placeLane op component lane value) s fun _ s' =>
      L.Sees s' → L.Distinct → L.state s' = { L.state s with
        registers := (L.state s).registers.set ⟨op.bank, Window.primary, component⟩
          (op.encoding.storedWord k y) } := by
  obtain ⟨words, hvalue, hlen, heq⟩ := hv
  obtain ⟨v, rfl⟩ := List.length_eq_one_iff.1 hlen
  have h16 : op.encoding ≠ .f16 := by
    intro h
    rw [h] at hone
    cases hone
  have hword (hs : L.Sees s) : op.encoding.storedWord k y = v := by
    rw [List.singleton_inj.1 (heq hs), ← h.laneWord]
    exact if_neg h16
  unfold Emit.placeLane
  rw [if_pos hone]
  refine Ensures.get_bind ?_
  rw [(Reckoning.carries_of_holds hvalue).isFloat]
  by_cases hfloat : op.encoding.storedKind k = .f32
  · rw [hfloat] at hvalue
    rw [if_pos (decide_eq_true hfloat)]
    refine (storeComponent_ensures (.of_holds hvalue)).imp fun _ s' m h hs hd => ?_
    rw [h hs hd, hword (L.sees_of_moves m hs)]
  · rw [if_neg (by rw [decide_eq_false hfloat]; decide)]
    refine (moving_of_quiet (L.scalarType_ensures .f32)).bind fun float s₁ m₁ h₁ => ?_
    obtain ⟨r₁, hfloat⟩ := h₁
    refine (moving_of_quiet (Reckoning.bitcast_ensures
      (L.bears_of_holds (L.holds_of_moves hvalue m₁)) (L.lanes_of_decl hfloat))).bind
      fun cast s₂ _ h₂ => ?_
    have r := L.resting.trans r₁ h₂.1
    refine (storeComponent_ensures (.of_holds h₂.2)).imp fun _ s' m h hs hd => ?_
    have hs₂ := L.sees_of_moves m hs
    rw [h hs hd, L.state_of_rests r hs₂, hword (sees_of_rests r hs₂)]

/-- A narrower lane is merged into the word that is loaded. -/
theorem placeField_ensures (hone : op.encoding.lanesPerComponent ≠ 1) :
    L.moving.Ensures (Emit.placeLane op component lane value) s fun _ s' =>
      L.Sees s' → L.Distinct → L.state s' = { L.state s with
        registers := (L.state s).registers.set ⟨op.bank, Window.primary, component⟩
          (BitField.insert ((L.state s).registers ⟨op.bank, Window.primary, component⟩)
            (op.encoding.storedWord k y)
            (lane % op.encoding.lanesPerComponent * op.encoding.bits) op.encoding.bits) } := by
  obtain ⟨words, hvalue, hlen, heq⟩ := hv
  obtain ⟨v, rfl⟩ := List.length_eq_one_iff.1 hlen
  have hword (hs : L.Sees s) : op.encoding.laneWord v = op.encoding.storedWord k y := by
    rw [List.singleton_inj.1 (heq hs), h.laneWord]
  unfold Emit.placeLane
  rw [if_neg hone]
  refine (moving_of_quiet (Reckoning.laneBits_ensures h.half hvalue)).bind fun bits s₁ _ h₁ => ?_
  obtain ⟨r₁, hbits⟩ := h₁
  refine (L.moving_of_resting (loadComponent_ensures _ _ _)).bind fun raw s₂ m₂ h₂ => ?_
  obtain ⟨r₂, words, hraw, hlen', heq'⟩ := h₂
  obtain ⟨w, rfl⟩ := List.length_eq_one_iff.1 hlen'
  refine (moving_of_quiet (Reckoning.mergeLane_ensures hraw (L.holds_of_moves hbits m₂)
    (op.lane_lt lane))).bind fun merged s₃ _ h₃ => ?_
  obtain ⟨r₃, hmerged⟩ := h₃
  refine (storeComponent_ensures (.of_holds hmerged)).imp fun _ s' m h hs hd => ?_
  have r := L.resting.trans r₁ (L.resting.trans r₂ r₃)
  have hs₃ := L.sees_of_moves m hs
  have hs₂ := sees_of_rests r₃ hs₃
  obtain rfl := List.singleton_inj.1 (heq' hs₂)
  rw [h hs hd, L.state_of_rests r hs₃, hword (sees_of_rests r hs₃),
    L.state_of_rests r₁ (sees_of_rests r₂ hs₂)]

/-- The word of a place after a lane was stored in it. -/
theorem placeLane_ensures : L.moving.Ensures (Emit.placeLane op component lane value) s fun _ s' =>
    L.Sees s' → L.Distinct → L.state s' = { L.state s with
      registers := (L.state s).registers.set ⟨op.bank, Window.primary, component⟩
        (op.encoding.putBits ((L.state s).registers ⟨op.bank, Window.primary, component⟩)
          (lane % op.encoding.lanesPerComponent) (op.encoding.storedWord k y)) } := by
  unfold Encoding.putBits
  by_cases hone : op.encoding.lanesPerComponent = 1
  · simp only [if_pos hone]
    exact placeWhole_ensures h hv hone
  · simp only [if_neg hone]
    exact placeField_ensures h hv hone

end Place

section Stores

variable (h : op.encoding.Storable k)
  (hmul : L.moving.faults .overflow ∨ (L.slots s).toNat * 4 < UInt32.size)

include h hmul

/-- A store of one lane. -/
theorem storeLane_ensures {encoded : Ref} {count lane : UInt32}
    (hadd : L.moving.faults .overflow ∨ op.InWords lane)
    (hv : L.Gives s encoded (op.encoding.storedKind k) (ys.map (op.encoding.storedLane k)))
    (hlen : ys.length = count.toNat) (hpos : 0 < ys.length) :
    L.moving.Ensures (Emit.storeLane op encoded count lane) s fun _ s' =>
      L.Sees s' → L.Distinct → L.state s' = { L.state s with
        registers := op.placeBits (L.slots s) (L.state s).registers lane
          (op.encoding.wordFor k ys lane.toNat) } := by
  rw [Emit.storeLane_eq]
  refine Ensures.assume fun hk => ?_
  have hslots := L.slots_of_moving hk
  refine (Emit.componentOf_ensures hadd).bind fun component t _ h₁ => ?_
  obtain ⟨rfl, hc, hcomponent⟩ := h₁
  refine (Emit.inRange_ensures (by rw [hslots]; exact hmul)).bind fun inRange t' _ h₁ => ?_
  obtain ⟨rfl, hin⟩ := h₁
  unfold Operand.placeBits
  rw [← hslots, ← RegisterFile.storage_of_inRange hc hin]
  cases inRange with
  | false => exact Ensures.pure _ fun _ _ => rfl
  | true =>
    obtain ⟨ls, hls, hlen', heq⟩ := hv
    rw [List.length_map] at hlen'
    refine (moving_of_quiet (Reckoning.pickLane_ensures hls (by rw [hlen', hlen])
      (by rw [hlen']; exact hpos))).bind fun value s₁ _ h₁ => ?_
    obtain ⟨r₁, hvalue⟩ := h₁
    have hgive : L.Gives s₁ value (op.encoding.storedKind k)
        [op.encoding.storedLane k (ys.getD (min lane.toNat (ys.length - 1)) 0)] := by
      refine ⟨_, hvalue, rfl, fun hs => ?_⟩
      have hlt : min lane.toNat (ys.length - 1) < ys.length := by omega
      rw [heq (sees_of_rests r₁ hs), List.length_map]
      simp [List.getD_eq_getElem?_getD, List.getElem?_eq_getElem hlt]
    refine (placeLane_ensures h hgive).imp fun _ s' m h₂ hs hd => ?_
    rw [h₂ hs hd, L.state_of_rests r₁ (L.sees_of_moves m hs), hcomponent]
    rfl

/-- A store of some lanes, one after the other. -/
theorem storeLanes_ensures {encoded : Ref} {count : UInt32} (lanes : List (Fin 4))
    (hadd : L.moving.faults .overflow ∨ ∀ lane ∈ lanes, op.InWords (.ofNat lane.val))
    (hv : L.Gives s encoded (op.encoding.storedKind k) (ys.map (op.encoding.storedLane k)))
    (hlen : ys.length = count.toNat) (hpos : 0 < ys.length) :
    L.moving.Ensures (lanes.forM fun lane => Emit.storeLane op encoded count (.ofNat lane.val)) s
      fun _ s' => L.Sees s' → L.Distinct → L.state s' = { L.state s with
        registers := op.placeLanes (L.slots s) (L.state s).registers
          (fun lane => op.encoding.wordFor k ys lane.val) lanes } := by
  induction lanes generalizing s with
  | nil => exact Ensures.pure _ fun _ _ => rfl
  | cons lane lanes ih =>
    refine (storeLane_ensures h hmul (hadd.imp_right fun h => h lane (List.mem_cons_self ..)) hv
      hlen hpos).bind fun _ s₁ m₁ h₁ => ?_
    have hslots := L.slots_of_moves m₁
    refine (ih (hslots ▸ hmul) (hadd.imp_right fun h l hl => h l (List.mem_cons_of_mem lane hl))
      (hv.mono m₁)).imp fun _ s₂ m₂ h₂ hs hd => ?_
    have hlane : (UInt32.ofNat lane.val).toNat = lane.val :=
      UInt32.toNat_ofNat_of_lt' (Nat.lt_trans lane.isLt (by decide))
    rw [h₂ hs hd, h₁ (L.sees_of_moves m₂ hs) hd, hslots, hlane]
    rfl

/-- A store of the lanes of a mask. -/
theorem storeMask_ensures {mask : LaneMask}
    (hadd : L.moving.faults .overflow ∨ ∀ lane ∈ mask.lanes, op.InWords (.ofNat lane.val))
    (hv : L.Holds s.builder value k ys) (hpos : 0 < ys.length) (hshort : L.Admits ys.length) :
    L.moving.Ensures (Emit.store op value mask) s fun _ s' =>
      L.Sees s' → L.Distinct → L.state s' = { L.state s with
        registers := op.placeLanes (L.slots s) (L.state s).registers
          (fun lane => op.encoding.wordFor k ys lane.val) mask.lanes } := by
  unfold Emit.store
  cases hm : mask.isEmpty with
  | true =>
    rw [LaneMask.lanes_of_isEmpty hm]
    exact Ensures.pure _ fun _ _ => rfl
  | false =>
    refine Ensures.get_bind ?_
    refine (moving_of_quiet (Reckoning.encodeValue_ensures h hv hshort)).bind
      fun encoded s₁ _ h₁ => ?_
    obtain ⟨r₁, hencoded⟩ := h₁
    refine (moving_of_quiet (L.scalarType_ensures .u32)).bind fun _ s₂ m₂ h₂ => ?_
    refine (moving_of_quiet (L.scalarType_ensures .f32)).bind fun _ s₃ m₃ h₃ => ?_
    have r := L.resting.trans r₁ (L.resting.trans h₂.1 h₃.1)
    have hslots := L.slots_of_moves (L.moves_of_rests r)
    refine (storeLanes_ensures h (hslots ▸ hmul) mask.lanes hadd
      (.of_holds (L.holds_of_moves (L.holds_of_moves hencoded m₂) m₃))
      (Reckoning.carries_of_holds hv).components.symm hpos).imp fun _ s₄ m₄ h₄ hs hd => ?_
    rw [h₄ hs hd, L.state_of_rests r (L.sees_of_moves m₄ hs), hslots]

end Stores

end Ledger

end TextureLift
