import TextureLift.Proofs.Machine.Growth

/-!
# Types of lanes of any width

Values are typed as lanes: scalars of a kind, or vectors of them. Lane types have scalars of 32 bits
and are what the builder makes itself; a module may have others, and the kind and the number of their
lanes is all that code for them asks for (`Builder.Lanes`).
-/

namespace TextureLift

namespace Builder

variable {b b' : Builder} {t id : Ref} {k : ScalarKind} {n : Nat}

/-- The type is a scalar of a kind or a vector of `n` of them, where one lane is a scalar. -/
structure Lanes (b : Builder) (t : Ref) (k : ScalarKind) (n : Nat) : Prop where
  kind : b.scalarKind? t = some k
  count : (b.typeComponents t).toNat = n
  notPointer : ∀ s p, b.typeDecl? t ≠ some (.pointer s p)
  notSingle : ∀ c, b.typeDecl? t ≠ some (.vector c 1)

/-- The id is a value of such a type. -/
def Carries (b : Builder) (id : Ref) (k : ScalarKind) (n : Nat) : Prop :=
  ∃ t, b.typeOf? id = some t ∧ b.Lanes t k n

theorem LaneType.lanes {m : UInt32} (h : b.LaneType t k m) : b.Lanes t k m.toNat := by
  refine ⟨h.scalarKind, by rw [h.typeComponents], h.not_pointer, fun c hc => ?_⟩
  rcases h with ⟨-, ht⟩ | ⟨hm, c', ht, -⟩
  · rw [ht] at hc
    cases k <;> cases hc
  · rw [ht] at hc
    cases hc
    exact hm rfl

theorem lanes_of_decl (h : b.typeDecl? t = some k.decl) : b.Lanes t k 1 :=
  LaneType.lanes (m := 1) (.inl ⟨rfl, h⟩)

theorem exists_decl_of_scalarKind (h : b.scalarKind? t = some k) : ∃ decl, b.typeDecl? t = some decl := by
  cases ht : b.typeDecl? t with
  | some decl => exact ⟨decl, rfl⟩
  | none =>
    have hc : b.containedType t = t := by simp [containedType, ht]
    unfold scalarKind? at h
    rw [hc, ht] at h
    cases h

theorem Lanes.mono (h : b.Lanes t k n) (hle : TableLe b b') : b'.Lanes t k n := by
  obtain ⟨decl, hd⟩ := exists_decl_of_scalarKind h.kind
  have hd' := hle.typeDecl hd
  refine ⟨hle.scalarKind h.kind, ?_, ?_, ?_⟩
  · rw [← h.count]
    unfold typeComponents
    rw [hd, hd']
  · rw [hd', ← hd]
    exact h.notPointer
  · rw [hd', ← hd]
    exact h.notSingle

/-- The lanes are floats or integers. -/
theorem Lanes.scalar (h : b.Lanes t k n) :
    (k = .f32 ∧ ∃ w, b.typeDecl? (b.containedType t) = some (.float w)) ∨
      (k ≠ .f32 ∧ ∃ w s, b.typeDecl? (b.containedType t) = some (.int w s)) := by
  have hk := h.kind
  unfold scalarKind? at hk
  split at hk
  · exact .inl ⟨(Option.some.inj hk).symm, _, ‹_›⟩
  · refine .inr ⟨?_, _, _, ‹_›⟩
    rw [← Option.some.inj hk]
    split <;> decide
  · cases hk

/-- The type of one lane. -/
theorem Lanes.contained (h : b.Lanes t k n) : b.Lanes (b.containedType t) k 1 := by
  have hk := h.kind
  have hself : b.containedType (b.containedType t) = b.containedType t := by
    rcases h.scalar with ⟨-, w, hd⟩ | ⟨-, w, s, hd⟩ <;> simp only [containedType] at hd ⊢ <;>
      simp only [hd]
  refine ⟨?_, ?_, fun s p hp => ?_, fun c hc => ?_⟩
  · unfold scalarKind? at hk ⊢
    rw [hself]
    exact hk
  · unfold typeComponents
    rcases h.scalar with ⟨-, w, hd⟩ | ⟨-, w, s, hd⟩ <;> rw [hd] <;> rfl
  · rcases h.scalar with ⟨-, w, hd⟩ | ⟨-, w, s, hd⟩ <;> rw [hd] at hp <;> cases hp
  · rcases h.scalar with ⟨-, w, hd⟩ | ⟨-, w, s, hd⟩ <;> rw [hd] at hc <;> cases hc

theorem Lanes.isFloatType (h : b.Lanes t k n) : b.isFloatType t = decide (k = .f32) := by
  obtain ⟨decl, hd⟩ := exists_decl_of_scalarKind h.kind
  have hscalar := h.scalar
  unfold Builder.isFloatType
  unfold containedType at hscalar
  simp only [hd] at hscalar ⊢
  cases decl with
  | pointer s p => exact absurd hd (h.notPointer s p)
  | _ => rcases hscalar with ⟨hk, w, hw⟩ | ⟨hk, w, s, hw⟩ <;> simp only at hw <;> simp [hw, hk]

theorem Carries.mono (h : b.Carries id k n) (hle : TableLe b b') : b'.Carries id k n := by
  obtain ⟨t, ht, hl⟩ := h
  exact ⟨t, hle.typeOf ht, hl.mono hle⟩

theorem Carries.defined (h : b.Carries id k n) : (b.definition? id).isSome := by
  obtain ⟨t, ht, -⟩ := h
  obtain ⟨d, hd, -⟩ := typeOf?_eq_some.1 ht
  rw [hd]
  rfl

theorem Carries.components (h : b.Carries id k n) : (b.components id).toNat = n := by
  obtain ⟨t, ht, hl⟩ := h
  unfold Builder.components
  rw [ht]
  exact hl.count

/-- One float is a scalar. -/
theorem Carries.scalar (h : b.Carries id .f32 1) :
    ∃ t w, b.typeOf? id = some t ∧ b.typeDecl? t = some (.float w) := by
  obtain ⟨t, ht, hl⟩ := h
  obtain ⟨decl, hd⟩ := exists_decl_of_scalarKind hl.kind
  rcases hl.scalar with ⟨-, w, hw⟩ | ⟨hk, -⟩
  · refine ⟨t, w, ht, ?_⟩
    have hcount := hl.count
    unfold containedType at hw
    unfold typeComponents at hcount
    rw [hd] at hw hcount ⊢
    cases decl with
    | pointer s p => exact absurd hd (hl.notPointer s p)
    | vector c m =>
      obtain rfl : m = 1 := UInt32.toNat_inj.1 hcount
      exact absurd hd (hl.notSingle c)
    | _ =>
      simp only at hw
      rw [← hd, hw]
  · exact absurd rfl hk

theorem Carries.isFloat (h : b.Carries id k n) : b.isFloat id = decide (k = .f32) := by
  obtain ⟨t, ht, hl⟩ := h
  unfold Builder.isFloat
  rw [ht]
  exact hl.isFloatType

theorem Carries.not_isPointer (h : b.Carries id k n) : b.isPointer id = false := by
  obtain ⟨t, ht, hl⟩ := h
  unfold isPointer
  rw [ht, Option.bind_some]
  split
  · rename_i s p hd
    exact absurd hd (hl.notPointer s p)
  · rfl

end Builder

end TextureLift
