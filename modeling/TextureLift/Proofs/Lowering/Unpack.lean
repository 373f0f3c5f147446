import TextureLift.Lowering.Unpack
import TextureLift.Proofs.Lowering.Reckoning
import TextureLift.Proofs.Semantics.Register

/-!
# Unpacked lanes

The code that unpacks a lane of a component computes the number that the lane stands for:

    R.Holds b raw .f32 [w] → lane < e.lanesPerComponent →
      unpackLane raw e lane  gives an id that holds  e.decodeLane w lane

Packed components are cast first, so their words may be of any kind.
-/

namespace TextureLift

open Builder Build Discipline Lowering Number

namespace Environment

variable {w lane : UInt32} {k : Encoding}

theorem checkedMul_bits (h : lane < k.lanesPerComponent) :
    checkedMul lane k.bits = .ok (lane * k.bits) := by
  have hle := Encoding.field_le h
  refine if_pos ?_
  show _ < 4294967296
  omega

/-- The numbers that the lanes of a word stand for. -/
def decodeAll (k : Encoding) (w : UInt32) : List UInt32 :=
  (List.range k.lanesPerComponent.toNat).map fun lane => k.decodeLane w (.ofNat lane)

theorem length_decodeAll : (decodeAll k w).length = k.lanesPerComponent.toNat := by
  unfold decodeAll
  rw [List.length_map, List.length_range]

end Environment

/-- The number of a lane is a word. -/
theorem Encoding.ofNat_lt_lanesPerComponent {e : Encoding} {lane : Nat}
    (h : lane ∈ List.range e.lanesPerComponent.toNat) : UInt32.ofNat lane < e.lanesPerComponent := by
  have hlt := List.mem_range.1 h
  rw [UInt32.lt_iff_toNat_lt, UInt32.toNat_ofNat_of_lt' (Nat.lt_trans hlt (UInt32.toNat_lt _))]
  exact hlt

/-- The offset of a lane does not overflow. -/
theorem Build.laneOffset_ensures {D : Discipline Builder} {b : Builder} {e : Encoding} {lane : UInt32}
    (hl : lane < e.lanesPerComponent) :
    D.Ensures (liftM (checkedMul lane e.bits)) b fun v b' => v = lane * e.bits ∧ b' = b := by
  rw [Environment.checkedMul_bits hl]
  refine Ensures.lift (fun v h => ⟨(Except.ok.inj h).symm, rfl⟩) fun f h => ?_
  cases h

namespace Reckoning

variable {R : Reckoning} {b : Builder} {raw : Ref} {w lane : UInt32} {e : Encoding}
  (hr : R.Bears b raw .f32 [w])

include hr

section Lane

variable (hl : lane < e.lanesPerComponent)

include hl

/-- A bit field of a component, as a number. -/
theorem unpackField_ensures :
    R.quiet.Ensures (unpackField raw e lane) b fun id b' => R.Holds b' id .f32
      [if e.isSigned then Single.ofSigned (BitField.extractSigned w (lane * e.bits) e.bits)
       else Single.ofUnsigned (BitField.extract w (lane * e.bits) e.bits)] := by
  unfold unpackField
  refine (R.scalarType_ensures .f32).bind fun float b₁ q₁ hfloat => ?_
  refine (laneOffset_ensures hl).bind fun v b' _ h => ?_
  obtain ⟨rfl, rfl⟩ := h
  refine (R.uintConstant_ensures _).bind fun offset b₂ q₂ hoffset => ?_
  refine (R.uintConstant_ensures _).bind fun count b₃ q₃ hcount => ?_
  have hlt := Encoding.offset_lt hl
  have hraw := R.bears_mono hr (R.quiet.trans q₁ (R.quiet.trans q₂ q₃))
  have hfloat := R.lanes_mono (R.lanes_of_decl hfloat) (R.quiet.trans q₂ q₃)
  by_cases hs : e.isSigned = true
  · rw [if_pos hs, if_pos hs]
    refine (R.scalarType_ensures .i32).bind fun int b₄ q₄ hint => ?_
    have hint := R.lanes_of_decl hint
    refine (bitcast_ensures (R.bears_mono hraw q₄) hint).bind fun cast b₅ q₅ hcast => ?_
    have q := R.quiet.trans q₄ q₅
    refine (bitFieldSExtract_ensures hcast (R.holds_mono hoffset (R.quiet.trans q₃ q))
      (R.holds_mono hcount q) hlt (R.lanes_mono hint q₅)).bind fun field b₆ q₆ hfield => ?_
    exact convertSToF_ensures hfield (R.lanes_mono hfloat (R.quiet.trans q q₆))
  · rw [if_neg hs, if_neg hs]
    refine (R.scalarType_ensures .u32).bind fun uint b₄ q₄ huint => ?_
    have huint := R.lanes_of_decl huint
    refine (bitcast_ensures (R.bears_mono hraw q₄) huint).bind fun cast b₅ q₅ hcast => ?_
    have q := R.quiet.trans q₄ q₅
    refine (bitFieldUExtract_ensures hcast (R.holds_mono hoffset (R.quiet.trans q₃ q))
      (R.holds_mono hcount q) hlt (R.lanes_mono huint q₅)).bind fun field b₆ q₆ hfield => ?_
    exact convertUToF_ensures hfield (R.lanes_mono hfloat (R.quiet.trans q q₆))

omit hl in
theorem unpackHalves_ensures : R.quiet.Ensures (unpackHalves raw) b fun id b' =>
    R.Holds b' id .f32 [Half.toSingle (Half.low w), Half.toSingle (Half.high w)] := by
  unfold unpackHalves
  refine (R.scalarType_ensures .f32).bind fun float b₁ q₁ hfloat => ?_
  refine (R.scalarType_ensures .u32).bind fun uint b₂ q₂ huint => ?_
  refine (R.vectorType_ensures 2 ((R.table q₂).typeDecl hfloat)).bind fun pair b₃ q₃ hpair => ?_
  refine (bitcast_ensures (R.bears_mono hr (R.quiet.trans q₁ (R.quiet.trans q₂ q₃)))
    (R.lanes_mono (R.lanes_of_decl huint) q₃)).bind fun cast b₄ q₄ hcast => ?_
  exact unpackHalf2x16_ensures hcast (R.lanes_mono (R.lanes_of_laneType hpair) q₄)

/-- A lane of a packed component, as the number that it stands for. -/
theorem unpackPacked_ensures (he : e ≠ .f32) : R.quiet.Ensures (unpackLane raw e lane) b
    fun id b' => R.Holds b' id .f32 [e.decodeLane w lane] := by
  unfold unpackLane
  refine (R.scalarType_ensures .f32).bind fun float b₁ q₁ hfloat => ?_
  have hr₁ := R.bears_mono hr q₁
  have hfloat := R.lanes_of_decl hfloat
  cases e with
  | f32 => exact absurd rfl he
  | f16 =>
    refine (unpackHalves_ensures hr₁).bind fun pair b₂ q₂ hpair => ?_
    refine extract_ensures (R.bears_of_holds hpair) ?_
    have h2 : lane.toNat < 2 := hl
    by_cases h0 : lane = 0
    · simp [h0, Encoding.decodeLane]
    · have h1 : lane.toNat = 1 := by
        have h0' : lane.toNat ≠ 0 := fun h => h0 (UInt32.toNat_inj.1 h)
        omega
      simp [h1, h0, Encoding.decodeLane]
  | u32 =>
    refine (R.scalarType_ensures .u32).bind fun uint b₂ q₂ huint => ?_
    refine (bitcast_ensures (R.bears_mono hr₁ q₂) (R.lanes_of_decl huint)).bind
      fun cast b₃ q₃ hcast => ?_
    exact convertUToF_ensures hcast (R.lanes_mono hfloat (R.quiet.trans q₂ q₃))
  | s32 =>
    refine (R.scalarType_ensures .i32).bind fun int b₂ q₂ hint => ?_
    refine (bitcast_ensures (R.bears_mono hr₁ q₂) (R.lanes_of_decl hint)).bind
      fun cast b₃ q₃ hcast => ?_
    exact convertSToF_ensures hcast (R.lanes_mono hfloat (R.quiet.trans q₂ q₃))
  | c10 =>
    refine (unpackField_ensures hr₁ hl).bind fun number b₂ q₂ hnumber => ?_
    refine (R.floatConstant_ensures _).bind fun step b₃ q₃ hstep => ?_
    exact fMul_ensures (R.holds_mono hnumber q₃) hstep (R.lanes_mono hfloat (R.quiet.trans q₂ q₃))
  | u8 | s8 | u16 | s16 => exact unpackField_ensures hr₁ hl

omit hr in
/-- A lane of a component, as the number that it stands for. -/
theorem unpackLane_ensures (hr : R.Holds b raw .f32 [w]) :
    R.quiet.Ensures (unpackLane raw e lane) b fun id b' =>
      R.Holds b' id .f32 [e.decodeLane w lane] := by
  by_cases he : e = .f32
  · subst he
    exact (R.scalarType_ensures .f32).bind fun _ _ q₁ _ => Ensures.pure _ (R.holds_mono hr q₁)
  · exact unpackPacked_ensures (R.bears_of_holds hr) hl he

end Lane

/-- The lanes of a packed component, one by one. -/
theorem unpackLanes_ensures (he : e ≠ .f32) :
    R.quiet.Ensures ((List.range e.lanesPerComponent.toNat).mapM fun lane =>
      unpackLane raw e (.ofNat lane)) b
      fun ids b' => R.HoldEach b' ids (Environment.decodeAll e w) := by
  refine (Ensures.mapM (D := R.quiet)
    (R := fun lane id b' => R.Holds b' id .f32 [e.decodeLane w (.ofNat lane)]) _
    (fun _ _ _ _ hq h => R.holds_mono h hq) fun lane hlane b' hq => ?_).imp fun ids b' _ h => ?_
  · exact unpackPacked_ensures (R.bears_mono hr hq) (Encoding.ofNat_lt_lanesPerComponent hlane) he
  · unfold HoldEach Environment.decodeAll
    rw [List.forall₂_map_right_iff]
    exact h.flip

/-- All lanes of a packed component. -/
theorem unpackAll_ensures (he : e ≠ .f32) : R.quiet.Ensures (unpackAll raw e) b
    fun id b' => R.Holds b' id .f32 (Environment.decodeAll e w) := by
  unfold unpackAll
  split
  · exact absurd rfl he
  · exact unpackHalves_ensures hr
  -- the other encodings unpack their lanes and join them
  · refine (R.scalarType_ensures .f32).bind fun float b₁ q₁ hfloat => ?_
    refine (unpackLanes_ensures (R.bears_mono hr q₁) he).bind fun ids b₂ q₂ hids => ?_
    have hlen : (Environment.decodeAll e w).length = e.lanesPerComponent.toNat :=
      Environment.length_decodeAll
    split
    · rename_i id
      unfold HoldEach at hids
      obtain ⟨y, hy, hw⟩ : ∃ y, R.Holds b₂ id .f32 [y] ∧ Environment.decodeAll e w = [y] := by
        generalize Environment.decodeAll e w = ys at hids
        cases hids with
        | cons hy hys =>
          cases hys
          exact ⟨_, hy, rfl⟩
      rw [hw]
      exact Ensures.pure _ hy
    · refine (R.vectorType_ensures _ ((R.table q₂).typeDecl hfloat)).bind fun t b₃ q₃ ht => ?_
      refine construct_ensures (hids.mono q₃) (R.admits_of_le ?_) ?_
      · rw [hlen]
        cases e <;> decide
      · rw [hlen]
        exact R.lanes_of_laneType ht

end Reckoning

end TextureLift
