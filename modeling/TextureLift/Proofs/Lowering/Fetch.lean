import TextureLift.Proofs.Lowering.Access
import TextureLift.Proofs.Lowering.Saturate

/-!
# Fetched texels

The coordinate of a fetch is either a value of floats or still in a packed encoding, and then it is
unpacked in two ways. A plain fetch unpacks the first component as a whole and clips it to two lanes; a
projective fetch unpacks three elements one by one. Both compute elements of the same coordinate:

    normalizeCoord ⟨value, e⟩            elements 0 to min 2 p - 1
    projectedCoord ⟨value, e⟩ divisor    elements 0, 1 and divisor

where `p` is the number of lanes of a component and an element past the last component is zero
(`Encoding.elementOrZero`). A fetch requests a texel at the coordinate and, for integer destinations,
converts it.
-/

namespace TextureLift

open Builder Build Discipline Lowering Number

/-! ## Elements of coordinates -/

namespace Environment

variable {k : Encoding} {xs : List UInt32}

/-- Elements 0 to 3 lie in the first four words. -/
theorem div_lanesPerComponent_lt {n : UInt32} (hn : n < 4) : n / k.lanesPerComponent < 4 := by
  have h1 := Nat.div_le_self n.toNat k.lanesPerComponent.toNat
  rw [UInt32.lt_iff_toNat_lt] at hn ⊢
  rw [UInt32.toNat_div]
  omega

theorem element_f32 {n : UInt32} : Encoding.f32.element xs n = xs.getD n.toNat 0 := by
  show xs.getD (n / 1).toNat 0 = _
  rw [UInt32.div_one]

end Environment

/-- Element `n` of a packed coordinate, or zero if the coordinate has no such element. -/
def Encoding.elementOrZero (e : Encoding) (components : List UInt32) (n : Nat) : UInt32 :=
  match components[n / e.lanesPerComponent.toNat]? with
  | some word => e.decodeLane word (.ofNat (n % e.lanesPerComponent.toNat))
  | none => Single.zero

namespace Encoding

variable {e : Encoding} {w : UInt32} {rest : List UInt32}

/-- Elements of the components that are there. -/
theorem elementOrZero_eq_element {components : List UInt32} {n : UInt32}
    (h : (n / e.lanesPerComponent).toNat < components.length) :
    e.elementOrZero components n.toNat = e.element components n := by
  unfold elementOrZero
  rw [element_eq]
  have hmod : UInt32.ofNat (n.toNat % e.lanesPerComponent.toNat) = n % e.lanesPerComponent := by
    rw [← UInt32.toNat_mod, UInt32.ofNat_toNat]
  rw [← UInt32.toNat_div, hmod, List.getElem?_eq_getElem h, List.getD_eq_getElem?_getD,
    List.getElem?_eq_getElem h]
  rfl

/-- The lanes of the first component are the first elements. -/
theorem decodeLane_eq_elementOrZero {n : Nat} (h : n < e.lanesPerComponent.toNat) :
    e.decodeLane w (.ofNat n) = e.elementOrZero (w :: rest) n := by
  unfold elementOrZero
  rw [Nat.div_eq_of_lt h, Nat.mod_eq_of_lt h]
  rfl

theorem take_decodeAll (rest : List UInt32) : (Environment.decodeAll e w).take 2 =
    (List.range (min 2 e.lanesPerComponent.toNat)).map (e.elementOrZero (w :: rest)) := by
  unfold Environment.decodeAll
  rw [← List.map_take, List.take_range]
  apply List.map_congr_left
  intro n hn
  have hlt := List.mem_range.1 hn
  apply decodeLane_eq_elementOrZero
  omega

end Encoding

/-! ## Packed coordinates -/

namespace Reckoning

variable {R : Reckoning} {b : Builder} {value raw base : Ref} {e : Encoding} {w : UInt32}
  {ws : List UInt32} {k : ScalarKind}

/-- Values that are computed already are no pointers. -/
theorem dereference_ensures (h : R.Holds b value k ws) : R.quiet.Ensures (dereference value) b
    fun id b' => R.Holds b' id k ws := by
  apply Ensures.get_bind
  rw [(carries_of_holds h).not_isPointer]
  exact Ensures.pure _ h

/-- A value of floats is taken as a coordinate. -/
theorem floatsOnly_ensures (h : R.quiet.Ensures (dereference value) b fun id b' => R.Holds b' id .f32 ws) :
    R.quiet.Ensures (do
      let value ← dereference value
      if (← get).isFloat value then return value else throw (.coordNotFloat value)) b
      fun id b' => R.Holds b' id .f32 ws := by
  refine h.bind fun id b₁ _ hid => Ensures.get_bind ?_
  rw [(carries_of_holds hid).isFloat]
  exact Ensures.pure _ hid

/-- A coordinate of floats is what it points to, or itself. -/
theorem normalizeCoord_f32
    (h : R.quiet.Ensures (dereference value) b fun id b' => R.Holds b' id .f32 ws) :
    R.quiet.Ensures (normalizeCoord ⟨value, .f32⟩) b fun id b' => R.Holds b' id .f32 ws := by
  unfold normalizeCoord
  rw [if_pos rfl]
  exact floatsOnly_ensures h

/-- A value of floats is a coordinate as it is. -/
theorem normalizeCoord_value (h : R.Holds b value .f32 ws) :
    R.quiet.Ensures (normalizeCoord ⟨value, .f32⟩) b fun id b' => R.Holds b' id .f32 ws :=
  normalizeCoord_f32 (dereference_ensures h)

section Packed

variable (he : e ≠ .f32)

include he

/-- The first lanes of a packed component, at most two. -/
theorem clippedLanes_ensures (hr : R.Bears b raw .f32 [w]) :
    R.quiet.Ensures (do
      let lanes ← unpackAll raw e
      if 2 < (← get).components lanes then shuffle (← floatVectorType 2) lanes lanes [0, 1]
      else return lanes) b fun id b' => R.Holds b' id .f32 ((Environment.decodeAll e w).take 2) := by
  refine (unpackAll_ensures hr he).bind fun lanes b₁ q₁ hlanes => Ensures.get_bind ?_
  have hcount : (b₁.components lanes).toNat = (Environment.decodeAll e w).length :=
    (carries_of_holds hlanes).components
  by_cases h2 : 2 < b₁.components lanes
  · rw [if_pos h2]
    refine (R.floatVectorType_ensures 2).bind fun vec b₂ q₂ hvec => ?_
    rw [UInt32.lt_iff_toNat_lt, hcount] at h2
    have hlanes := R.bears_of_holds (R.holds_mono hlanes q₂)
    generalize Environment.decodeAll e w = ys at h2 hlanes ⊢
    obtain _ | ⟨y, _ | ⟨z, rest⟩⟩ := ys
    · simp at h2
    · simp at h2
    · exact shuffle_ensures hlanes hlanes (.cons rfl (.cons rfl .nil)) (R.admits_of_le (by simp))
        (R.lanes_of_laneType hvec)
  · rw [if_neg h2]
    rw [UInt32.lt_iff_toNat_lt, hcount] at h2
    have hle : (Environment.decodeAll e w).length ≤ 2 := Nat.not_lt.1 h2
    rw [List.take_of_length_le hle]
    exact Ensures.pure _ hlanes

/-- The first lanes of a packed coordinate: those of its first component. -/
theorem unpackCoord_ensures
    (h : R.quiet.Ensures (dereference value) b fun id b' => R.Bears b' id .f32 (w :: ws)) :
    R.quiet.Ensures (unpackCoord value e) b fun id b' =>
      R.Holds b' id .f32 ((Environment.decodeAll e w).take 2) := by
  unfold unpackCoord
  refine h.bind fun base b₁ q₁ hbase => Ensures.get_bind ?_
  have hcount : (b₁.components base).toNat = ws.length + 1 := (carries_of_bears hbase).components
  by_cases h1 : 1 < b₁.components base
  · rw [if_pos h1]
    refine (R.scalarType_ensures .f32).bind fun float b₂ q₂ hfloat => ?_
    refine (R.intConstant_ensures _).bind fun zero b₃ q₃ hzero => ?_
    refine (vectorExtractDynamic_ensures (R.bears_mono hbase (R.quiet.trans q₂ q₃)) hzero rfl
      (R.lanes_mono (R.lanes_of_decl hfloat) q₃)).bind fun raw b₄ _ hraw => ?_
    exact clippedLanes_ensures he (R.bears_of_holds hraw)
  · rw [if_neg h1]
    rw [UInt32.lt_iff_toNat_lt, hcount] at h1
    have hnil : ws = [] := List.length_eq_zero_iff.1 (by simpa using h1)
    rw [hnil] at hbase
    exact clippedLanes_ensures he hbase

variable (h : R.quiet.Ensures (dereference value) b fun id b' => R.Bears b' id .f32 ws)

include h

/-- A packed coordinate for a plain fetch. It is of floats, so that the fetch takes it. -/
theorem normalizeCoord_packed (hpos : 0 < ws.length) :
    R.quiet.Ensures (normalizeCoord ⟨value, e⟩) b fun id b' => R.Holds b' id .f32
      ((List.range (min 2 e.lanesPerComponent.toNat)).map (e.elementOrZero ws)) := by
  obtain ⟨w, rest, rfl⟩ := List.exists_cons_of_length_pos hpos
  unfold normalizeCoord
  rw [if_neg he]
  refine (unpackCoord_ensures he h).bind fun unpacked b₁ q₁ hunpacked => ?_
  rw [Encoding.take_decodeAll rest] at hunpacked
  exact floatsOnly_ensures (dereference_ensures hunpacked)

omit h in
/-- One element of a packed coordinate. -/
theorem coordElement_ensures (h : R.Bears b base .f32 ws) {count : UInt32}
    (hcount : count.toNat = ws.length) (n : UInt32) :
    R.quiet.Ensures (coordElement base count e n) b fun id b' =>
      R.Holds b' id .f32 [e.elementOrZero ws n.toNat] := by
  unfold coordElement Encoding.elementOrZero
  have hdiv : (n / e.lanesPerComponent).toNat = n.toNat / e.lanesPerComponent.toNat :=
    UInt32.toNat_div ..
  have hmod : UInt32.ofNat (n.toNat % e.lanesPerComponent.toNat) = n % e.lanesPerComponent := by
    rw [← UInt32.toNat_mod, UInt32.ofNat_toNat]
  dsimp only
  rw [← hdiv, hmod]
  by_cases hout : count ≤ n / e.lanesPerComponent
  · rw [if_pos hout]
    rw [UInt32.le_iff_toNat_le, hcount] at hout
    rw [List.getElem?_eq_none hout]
    exact R.floatConstant_ensures _
  · rw [if_neg hout]
    rw [UInt32.le_iff_toNat_le, hcount, Nat.not_le] at hout
    have hlane := UInt32.mod_lt n (b := e.lanesPerComponent) Encoding.lanesPerComponent_pos
    rw [List.getElem?_eq_getElem hout]
    by_cases h1 : 1 < count
    · rw [if_pos h1]
      refine (extract_ensures h (List.getElem?_eq_getElem hout)).bind fun raw b₁ _ hraw => ?_
      exact unpackPacked_ensures (R.bears_of_holds hraw) hlane he
    · -- a scalar is its only component
      rw [if_neg h1]
      rw [UInt32.lt_iff_toNat_lt, hcount] at h1
      obtain ⟨w, rfl⟩ := List.length_eq_one_iff.1 (by
        show ws.length = 1
        have h1 : ¬ 1 < ws.length := h1
        omega)
      have hzero : (n / e.lanesPerComponent).toNat = 0 := by simpa using hout
      simp only [hzero, List.getElem_cons_zero]
      exact unpackPacked_ensures h hlane he

/-- A packed coordinate for a projective fetch. -/
theorem projectedCoord_packed (divisor : UInt8) :
    R.quiet.Ensures (projectedCoord ⟨value, e⟩ divisor) b fun id b' => R.Holds b' id .f32
      [e.elementOrZero ws 0, e.elementOrZero ws 1, e.elementOrZero ws divisor.toNat] := by
  unfold projectedCoord
  refine h.bind fun base b₁ q₁ hbase => ?_
  refine (R.floatVectorType_ensures 3).bind fun vec b₂ q₂ hvec => ?_
  rw [if_neg he]
  apply Ensures.get_bind
  have hbase := R.bears_mono hbase q₂
  have hcount : (b₂.components base).toNat = ws.length := (carries_of_bears hbase).components
  refine (coordElement_ensures he hbase hcount 0).bind fun u b₃ q₃ hu => ?_
  refine (coordElement_ensures he (R.bears_mono hbase q₃) hcount 1).bind fun v b₄ q₄ hv => ?_
  refine (coordElement_ensures he (R.bears_mono hbase (R.quiet.trans q₃ q₄)) hcount
    divisor.toUInt32).bind fun q b₅ q₅ hq => ?_
  rw [UInt8.toNat_toUInt32] at hq
  have q₄₅ := R.quiet.trans q₄ q₅
  have heach : R.HoldEach b₅ [u, v, q] [e.elementOrZero ws 0, e.elementOrZero ws 1,
      e.elementOrZero ws divisor.toNat] :=
    .cons (R.holds_mono hu q₄₅) (.cons (R.holds_mono hv q₅) (.cons hq .nil))
  exact construct_ensures heach (R.admits_of_le (by simp))
    (R.lanes_mono (R.lanes_of_laneType hvec) (R.quiet.trans q₃ q₄₅))

end Packed

end Reckoning

/-! ## Coordinates in variables -/

namespace Environment

variable {e : Environment} {F : Fault → Prop} {b : Builder} {p t : Ref} {s : Storage}
  {k : Encoding} {xs : List UInt32}

theorem isPointer_of_var (hb : b.WellFormed) (hd : b.definition? p = some (.var t s)) :
    b.isPointer p = true := by
  obtain ⟨q, hq, -⟩ := hb.vars p t s hd
  unfold Builder.isPointer
  rw [typeOf?_eq_some.2 ⟨_, hd, rfl⟩]
  simp only [Option.bind_some, hq]

theorem dereference_var (hF : F .idsExhausted) (hd : b.definition? p = some (.var t s))
    (hne : s ≠ .uniformConstant) :
    (e.quiet F).Ensures (dereference p) b fun id b' => e.Holds b' id .f32 (e.contents b p) := by
  refine Ensures.assume fun hs => Ensures.get_bind ?_
  rw [if_pos (isPointer_of_var hs.wellFormed hd)]
  exact load_ensures hF hd hne

/-- A coordinate in a variable: all four lanes of floats, or the first of a packed component. -/
theorem normalizeCoord_var (hF : F .idsExhausted) (hd : b.definition? p = some (.var t s))
    (hne : s ≠ .uniformConstant) :
    (e.quiet F).Ensures (normalizeCoord ⟨p, k⟩) b fun id b' => e.Holds b' id .f32
      (if k = .f32 then e.contents b p else (List.range (min 2 k.lanesPerComponent.toNat)).map
        fun lane => k.element (e.contents b p) (.ofNat lane)) := by
  have hvar := dereference_var (e := e) hF hd hne
  by_cases hk : k = .f32
  · rw [if_pos hk, hk]
    exact Reckoning.normalizeCoord_f32 (R := e.reckoning hF) hvar
  · have hpos : 0 < (e.contents b p).length := by
      rw [length_contents]
      decide
    have helements : (List.range (min 2 k.lanesPerComponent.toNat)).map
        (k.elementOrZero (e.contents b p)) = (List.range (min 2 k.lanesPerComponent.toNat)).map
          fun lane => k.element (e.contents b p) (.ofNat lane) := by
      refine List.map_congr_left fun lane hlane => ?_
      have hlt : lane < k.lanesPerComponent.toNat :=
        Nat.lt_of_lt_of_le (List.mem_range.1 hlane) (Nat.min_le_right ..)
      have hlane : (UInt32.ofNat lane).toNat = lane :=
        UInt32.toNat_ofNat_of_lt' (Nat.lt_trans hlt k.lanesPerComponent.toNat_lt)
      rw [← Encoding.elementOrZero_eq_element, hlane]
      rw [UInt32.toNat_div, hlane, Nat.div_eq_of_lt hlt]
      exact hpos
    rw [if_neg hk, ← helements]
    exact Reckoning.normalizeCoord_packed (R := e.reckoning hF) hk hvar hpos

/-- The coordinate of a projective fetch. -/
theorem projectedCoord_ensures (hF : F .idsExhausted) {lane : UInt8}
    (hd : b.definition? p = some (.var t s)) (hne : s ≠ .uniformConstant) (hlane : lane ≤ 3) :
    (e.quiet F).Ensures (projectedCoord ⟨p, k⟩ lane) b fun id b' => e.Holds b' id .f32
      [k.element (e.contents b p) 0, k.element (e.contents b p) 1,
        k.element (e.contents b p) lane.toUInt32] := by
  have hvar := dereference_var (e := e) hF hd hne
  have hlen : (e.contents b p).length = 4 := length_contents
  have hlane' : lane.toUInt32 < 4 := by
    rw [UInt32.lt_iff_toNat_lt, UInt8.toNat_toUInt32]
    exact Nat.lt_succ_of_le hlane
  by_cases hk : k = .f32
  · -- lanes below four are lanes of the first vector
    have hget (n : UInt32) (hn : n < 4) : (e.contents b p ++ e.contents b p)[n.toNat]? =
        some ((e.contents b p).getD n.toNat 0) := by
      have hlt : n.toNat < (e.contents b p).length := by
        rw [hlen]
        exact hn
      rw [List.getElem?_append_left hlt, List.getD_eq_getElem?_getD, List.getElem?_eq_getElem hlt]
      rfl
    unfold projectedCoord
    refine hvar.bind fun base b₁ q₁ hbase => ?_
    refine ((e.reckoning hF).floatVectorType_ensures 3).bind fun vec b₂ q₂ hvec => ?_
    have hbase₂ := hbase.mono q₂.toLeads
    rw [if_pos hk, hk, element_f32, element_f32, element_f32]
    exact (e.reckoning hF).shuffle_ensures hbase₂ hbase₂
      (.cons (hget 0 (by decide)) (.cons (hget 1 (by decide)) (.cons (hget _ hlane') .nil)))
      ((e.reckoning hF).admits_of_le (by simp)) ((e.reckoning hF).lanes_of_laneType hvec)
  · have helement (n : UInt32) (hn : n < 4) :
        k.elementOrZero (e.contents b p) n.toNat = k.element (e.contents b p) n :=
      Encoding.elementOrZero_eq_element (by rw [hlen]; exact div_lanesPerComponent_lt hn)
    have hpacked := Reckoning.projectedCoord_packed (R := e.reckoning hF) hk hvar lane
    rw [← UInt8.toNat_toUInt32, helement _ hlane'] at hpacked
    rw [← helement 0 (by decide), ← helement 1 (by decide)]
    exact hpacked

/-! ## Fetches -/

/-- The id holds numbers that are to be stored in an encoding: as floats, or converted already. -/
def HoldsFor (e : Environment) (b : Builder) (id : Ref) (k : Encoding) (xs : List UInt32) : Prop :=
  e.Holds b id .f32 xs ∨
    k.isInteger = true ∧ e.Holds b id (integerKind k.isSigned) (xs.map k.encodeNumber)

/-- A fetch requests a texel at a coordinate that code computes. -/
theorem fetch_ensures (hF : F .idsExhausted) {coord : Coord} {lod : FetchLod} {d : Detail}
    (hd : b.definition? p = some (.var t .uniformConstant))
    (hc : (e.quiet F).Ensures (normalizeCoord coord) b fun id b' => e.Holds b' id .f32 xs)
    (hlod : e.HoldsDetail b lod d) :
    (e.steady F).Ensures (fetch p coord k lod) b fun id b' =>
      e.HoldsFor b' id k (e.texels (e.after b).samples.size (d.request p xs)).lanes ∧
        b'.stores = b.stores ∧ (e.Fits b' → (e.after b').memory = (e.after b).memory ∧
          (e.after b').samples = (e.after b).samples.push (d.request p xs)) := by
  unfold fetch
  refine (steady_of_quiet hc).bind fun coord b₁ _ h => ?_
  obtain ⟨q₁, hcoord⟩ := h
  refine (sampleImage_ensures hF (q₁.grows.table.definition hd) hcoord
    (hlod.mono q₁.toLeads)).bind fun texel b₂ l₂ h => ?_
  obtain ⟨htexel, hstores, hstate⟩ := h
  have htexel' := htexel.congr (e.texels (e.after b).samples.size (d.request p xs)).lanes
    (by rw [length_texel, length_texel])
    fun hf => by rw [q₁.samples (l₂.fits hf)]
  have hstate' (hf : e.Fits b₂) : (e.after b₂).memory = (e.after b).memory ∧
      (e.after b₂).samples = (e.after b).samples.push (d.request p xs) := by
    obtain ⟨hm, hsm⟩ := hstate hf
    rw [hm, hsm, q₁.memory (l₂.fits hf), q₁.samples (l₂.fits hf)]
    exact ⟨rfl, rfl⟩
  by_cases hk : k.isInteger = true
  · rw [if_pos hk]
    have hshort : (e.reckoning hF).Admits (e.texels (e.after b).samples.size (d.request p xs)).lanes.length :=
      (e.reckoning hF).admits_of_le (by rw [length_texel]; decide)
    refine (steady_of_quiet ((e.reckoning hF).saturateTo_ensures htexel' hshort hk)).imp
      fun id b₃ _ h => ?_
    obtain ⟨q₃, hid⟩ := h
    refine ⟨.inr ⟨hk, hid⟩, q₃.stores.trans (hstores.trans q₁.stores), fun hf => ?_⟩
    rw [q₃.memory hf, q₃.samples hf]
    exact hstate' (q₃.fits hf)
  · rw [if_neg hk]
    exact Ensures.pure _ ⟨.inl htexel', hstores.trans q₁.stores, hstate'⟩

end Environment

end TextureLift
