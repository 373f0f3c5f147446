import TextureLift.Machine.Basic

/-!
# The table of definitions as it grows

Definitions are only ever added to a module under construction, so what was found in the table once
is found there for good. The statements here carry facts about ids from one table to a larger one.

A *lane type* is a scalar type of 32 bits or a vector of them; it is what the types of all values
other than images and pointers come to.
-/

namespace TextureLift

/-- The declaration of the scalar type of a kind. -/
def ScalarKind.decl : ScalarKind → TypeDecl
  | f32 => .float 32
  | u32 => .int 32 false
  | i32 => .int 32 true

namespace Builder

variable {b b' b'' : Builder} {id t : Ref} {k : ScalarKind} {n : UInt32}

/-! ## Larger tables -/

/-- Every definition of the first table stands in the second at the same position. -/
def TableLe (b b' : Builder) : Prop :=
  ∀ (i : Nat) (d : Definition), b.definitions[i]? = some d → b'.definitions[i]? = some d

theorem TableLe.refl (b : Builder) : TableLe b b :=
  fun _ _ h => h

theorem TableLe.trans (h : TableLe b b') (h' : TableLe b' b'') : TableLe b b'' :=
  fun i d hd => h' i d (h i d hd)

theorem tableLe_push (d : Definition) (hd : b'.definitions = b.definitions.push d) :
    TableLe b b' := by
  intro i e h
  have hi := (Array.getElem?_eq_some_iff.1 h).1
  rw [hd, Array.getElem?_push, if_neg (by omega)]
  exact h

theorem TableLe.definition (h : TableLe b b') {d : Definition} (hd : b.definition? id = some d) :
    b'.definition? id = some d :=
  h _ d hd

theorem TableLe.isSome (h : TableLe b b') (hd : (b.definition? id).isSome) :
    (b'.definition? id).isSome := by
  obtain ⟨d, hd⟩ := Option.isSome_iff_exists.1 hd
  rw [h.definition hd]
  rfl

theorem typeDecl?_eq_some {decl : TypeDecl} :
    b.typeDecl? t = some decl ↔ b.definition? t = some (.type decl) := by
  unfold typeDecl?
  constructor
  · intro h
    split at h
    · rename_i heq
      rw [heq, Option.some.inj h]
    · cases h
  · intro h
    rw [h]

theorem TableLe.typeDecl (h : TableLe b b') {decl : TypeDecl} (ht : b.typeDecl? t = some decl) :
    b'.typeDecl? t = some decl :=
  typeDecl?_eq_some.2 (h.definition (typeDecl?_eq_some.1 ht))

theorem typeOf?_eq_some :
    b.typeOf? id = some t ↔ ∃ d, b.definition? id = some d ∧ d.valueType? = some t :=
  Option.bind_eq_some_iff

theorem TableLe.typeOf (h : TableLe b b') (ht : b.typeOf? id = some t) : b'.typeOf? id = some t := by
  obtain ⟨d, hd, hv⟩ := typeOf?_eq_some.1 ht
  exact typeOf?_eq_some.2 ⟨d, h.definition hd, hv⟩

theorem constant?_eq_some {bits : UInt32} :
    b.constant? id = some (t, bits) ↔ b.definition? id = some (.constant t bits) := by
  unfold constant?
  constructor
  · intro h
    split at h
    · rename_i heq
      obtain ⟨rfl, rfl⟩ := Prod.mk.inj (Option.some.inj h)
      exact heq
    · cases h
  · intro h
    rw [h]

/-- What is looked for in the table is there under its id. -/
theorem definition?_of_idxOf? {d : Definition} {i : Nat} (hsize : b.definitions.size < UInt32.size)
    (h : b.definitions.idxOf? d = some i) : b.definition? ⟨.ofNat i⟩ = some d := by
  obtain ⟨j, hj, rfl⟩ := Option.map_eq_some_iff.1 h
  obtain ⟨hget, -⟩ := Array.finIdxOf?_eq_some_iff.1 hj
  show b.definitions[(UInt32.ofNat j.val).toNat]? = some d
  rw [UInt32.toNat_ofNat_of_lt' (Nat.lt_trans j.isLt hsize)]
  exact Array.getElem?_eq_some_iff.2 ⟨j.isLt, hget⟩

/-! ## Lane types -/

/-- The type is a scalar of the kind if `n` is one, and a vector of `n` of them otherwise. -/
def LaneType (b : Builder) (t : Ref) (k : ScalarKind) (n : UInt32) : Prop :=
  (n = 1 ∧ b.typeDecl? t = some k.decl) ∨
    (n ≠ 1 ∧ ∃ c, b.typeDecl? t = some (.vector c n) ∧ b.typeDecl? c = some k.decl)

/-- The value has a lane type. -/
def HasLanes (b : Builder) (id : Ref) (k : ScalarKind) (n : UInt32) : Prop :=
  ∃ t, b.typeOf? id = some t ∧ b.LaneType t k n

theorem LaneType.mono (hl : b.LaneType t k n) (h : TableLe b b') : b'.LaneType t k n := by
  rcases hl with ⟨hn, ht⟩ | ⟨hn, c, ht, hc⟩
  · exact .inl ⟨hn, h.typeDecl ht⟩
  · exact .inr ⟨hn, c, h.typeDecl ht, h.typeDecl hc⟩

theorem HasLanes.mono (hl : b.HasLanes id k n) (h : TableLe b b') : b'.HasLanes id k n := by
  obtain ⟨t, ht, hl⟩ := hl
  exact ⟨t, h.typeOf ht, hl.mono h⟩

theorem LaneType.typeDecl_isSome (h : b.LaneType t k n) : (b.typeDecl? t).isSome := by
  rcases h with ⟨rfl, ht⟩ | ⟨hn, c, ht, hc⟩ <;> simp [ht]

theorem LaneType.typeComponents (h : b.LaneType t k n) : b.typeComponents t = n := by
  unfold Builder.typeComponents
  rcases h with ⟨rfl, ht⟩ | ⟨hn, c, ht, hc⟩
  · rw [ht]
    cases k <;> rfl
  · rw [ht]

/-- The component type of a lane type. -/
theorem LaneType.containedType (h : b.LaneType t k n) :
    b.typeDecl? (b.containedType t) = some k.decl := by
  unfold Builder.containedType
  rcases h with ⟨rfl, ht⟩ | ⟨hn, c, ht, hc⟩
  · rw [ht]
    cases k <;> exact ht
  · rw [ht]
    exact hc

theorem LaneType.scalarKind (h : b.LaneType t k n) : b.scalarKind? t = some k := by
  unfold Builder.scalarKind?
  rw [h.containedType]
  cases k <;> rfl

theorem LaneType.isFloatType (h : b.LaneType t k n) : b.isFloatType t = decide (k = .f32) := by
  unfold Builder.isFloatType
  rcases h with ⟨rfl, ht⟩ | ⟨hn, c, ht, hc⟩
  · cases k <;> simp only [ScalarKind.decl] at ht <;> simp only [ht] <;> rfl
  · simp only [ht, hc]
    cases k <;> rfl

theorem LaneType.not_pointer (h : b.LaneType t k n) (s : Storage) (p : Ref) :
    b.typeDecl? t ≠ some (.pointer s p) := by
  rcases h with ⟨rfl, ht⟩ | ⟨hn, c, ht, hc⟩
  · rw [ht]
    cases k <;> simp [ScalarKind.decl]
  · rw [ht]
    simp

/-! ## Values of lane types -/

theorem HasLanes.components (h : b.HasLanes id k n) : b.components id = n := by
  obtain ⟨t, ht, hl⟩ := h
  unfold Builder.components
  rw [ht]
  exact hl.typeComponents

theorem HasLanes.isFloat (h : b.HasLanes id k n) : b.isFloat id = decide (k = .f32) := by
  obtain ⟨t, ht, hl⟩ := h
  unfold Builder.isFloat
  rw [ht]
  exact hl.isFloatType

end Builder

end TextureLift
