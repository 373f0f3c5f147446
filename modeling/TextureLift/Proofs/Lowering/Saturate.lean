import TextureLift.Lowering.Saturate
import TextureLift.Proofs.Lowering.Unpack

/-!
# Saturated lanes

The code that converts floats to the integers of an encoding computes `Encoding.encodeNumber` in
every lane:

    R.Holds b value .f32 xs →
      saturateTo value k  gives an id that holds  xs.map k.encodeNumber

for as many lanes as the vector of a constant may have.
-/

namespace TextureLift

open Builder Build Discipline Lowering Number

namespace Environment

/-- The kind of the integers of a conversion. -/
def integerKind (signed : Bool) : ScalarKind :=
  if signed then .i32 else .u32

end Environment

namespace Reckoning

variable {R : Reckoning} {b : Builder} {value : Ref} {xs : List UInt32}

/-- A constant in all lanes. -/
theorem splat_ensures (w : UInt32) {count : UInt32} (hshort : R.Admits count.toNat) :
    R.quiet.Ensures (splat w count) b fun id b' =>
      R.Holds b' id .f32 (List.replicate count.toNat w) := by
  unfold splat
  refine (R.floatConstant_ensures w).bind fun constant b₁ q₁ hconstant => ?_
  by_cases hc : count = 1
  · rw [if_pos hc, hc]
    exact Ensures.pure _ hconstant
  · rw [if_neg hc]
    refine (R.floatVectorType_ensures count).bind fun t b₂ q₂ ht => ?_
    refine construct_ensures (.replicate (R.holds_mono hconstant q₂) _) ?_ ?_ <;>
      rw [List.length_replicate]
    · exact hshort
    · exact R.lanes_of_laneType ht

variable (hv : R.Holds b value .f32 xs) (hshort : R.Admits xs.length)

include hv hshort

/-- Floats, rounded and clamped. -/
theorem saturate_ensures {lo hi : Int} {signed : Bool} :
    R.quiet.Ensures (saturate value (Single.ofInt lo) (Single.ofInt hi) signed) b fun id b' =>
      R.Holds b' id (Environment.integerKind signed) (xs.map (Encoding.saturated signed lo hi)) := by
  refine Ensures.get_bind ?_
  have hcount : (b.components value).toNat = xs.length := (carries_of_holds hv).components
  generalize b.components value = count at hcount
  rw [← hcount] at hshort
  refine (R.floatVectorType_ensures count).bind fun float b₁ q₁ hfloat => ?_
  have hfloat := hcount ▸ R.lanes_of_laneType hfloat
  refine (round_ensures (R.holds_mono hv q₁) hfloat).bind fun rounded b₂ q₂ hrounded => ?_
  refine (splat_ensures _ hshort).bind fun lower b₃ q₃ hlower => ?_
  refine (splat_ensures _ hshort).bind fun upper b₄ q₄ hupper => ?_
  have q := R.quiet.trans q₃ q₄
  have hlen : (xs.map Single.roundAway).length = count.toNat := by rw [List.length_map, hcount]
  rw [← hlen] at hlower hupper
  refine (fClamp_ensures (R.holds_mono hrounded q) (R.holds_mono hlower q₄) hupper
    (by rw [List.length_map]; exact R.lanes_mono hfloat (R.quiet.trans q₂ q))).bind
    fun clamped b₅ q₅ hclamped => ?_
  rw [List.map_map] at hclamped
  cases signed with
  | true =>
    refine (R.scalarType_ensures .i32).bind fun int b₆ q₆ hint => ?_
    refine (R.vectorType_ensures count hint).bind fun t b₇ q₇ ht => ?_
    refine (convertFToS_ensures (R.holds_mono hclamped (R.quiet.trans q₆ q₇))
      (by rw [List.length_map, ← hcount]; exact R.lanes_of_laneType ht)).imp fun id b' _ h => ?_
    rw [List.map_map] at h
    exact h
  | false =>
    refine (R.scalarType_ensures .u32).bind fun uint b₆ q₆ huint => ?_
    refine (R.vectorType_ensures count huint).bind fun t b₇ q₇ ht => ?_
    refine (convertFToU_ensures (R.holds_mono hclamped (R.quiet.trans q₆ q₇))
      (by rw [List.length_map, ← hcount]; exact R.lanes_of_laneType ht)).imp fun id b' _ h => ?_
    rw [List.map_map] at h
    exact h

/-- Floats, converted to the integers of an encoding. -/
theorem saturateTo_ensures {k : Encoding} (hk : k.isInteger) :
    R.quiet.Ensures (saturateTo value k) b fun id b' =>
      R.Holds b' id (Environment.integerKind k.isSigned) (xs.map k.encodeNumber) := by
  cases k with
  | f32 | f16 | c10 => cases hk
  | u8 | s8 | u16 | s16 | u32 | s32 => exact saturate_ensures hv hshort

/-- Floats, converted to fixed point. -/
theorem saturateFixed_ensures : R.quiet.Ensures (saturateFixed value) b fun id b' =>
    R.Holds b' id .i32 (xs.map Encoding.c10.encodeNumber) := by
  refine Ensures.get_bind ?_
  have hcount : (b.components value).toNat = xs.length := (carries_of_holds hv).components
  generalize b.components value = count at hcount
  refine (R.floatVectorType_ensures count).bind fun float b₁ q₁ hfloat => ?_
  have hfloat := hcount ▸ R.lanes_of_laneType hfloat
  refine (splat_ensures _ (hcount ▸ hshort)).bind fun scale b₂ q₂ hscale => ?_
  rw [hcount] at hscale
  refine (fMul_ensures (R.holds_mono hv (R.quiet.trans q₁ q₂)) hscale (R.lanes_mono hfloat q₂)).bind
    fun scaled b₃ q₃ hscaled => ?_
  refine (saturate_ensures hscaled (by rwa [List.length_map])).imp fun id b' _ h => ?_
  rw [List.map_map] at h
  exact h

end Reckoning

end TextureLift
