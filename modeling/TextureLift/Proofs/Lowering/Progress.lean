import TextureLift.Proofs.Lowering.Correctness

/-!
# Lowered modules are never stuck

Every module that lowering builds runs to its end on every memory that fits its variables. Each
instruction with a result computes a value of the type that the module gives the result, and each store
writes a value of the type that its pointer points to.
-/

namespace TextureLift

open Builder Lowering

/-- The value is what the module says of the id: lanes of the kind and number of its type, or an
image. -/
def Builder.Describes (b : Builder) (id : Ref) : Value → Prop
  | .lanes kind bits =>
    (b.typeOf? id).bind b.scalarKind? = some kind ∧ bits.length = (b.components id).toNat
  | .image _ => ∃ t image, b.typeOf? id = some t ∧ b.typeDecl? t = some (.sampledImage image)

theorem Builder.describes_of_hasType {b : Builder} {id t : Ref} {v : Value}
    (ht : b.typeOf? id = some t) (hv : v.HasType b t) : b.Describes id v := by
  cases v with
  | lanes kind bits =>
    obtain ⟨hkind, hlength⟩ := hv
    refine ⟨by rw [ht]; exact hkind, ?_⟩
    unfold Builder.components
    rw [ht]
    exact hlength
  | image source =>
    obtain ⟨image, himage⟩ := hv
    exact ⟨t, image, ht, himage⟩

theorem Machine.step_store {b : Builder} {m : Machine} {i : Inst} {pointer : Ref} {v : Value}
    (texels : Texels) (hop : i.opcode = .store) (hp : i.operandRef? 0 = some pointer)
    (hv : m.operand b i 1 = .ok v) : m.step b texels i = .ok (m.write pointer v) := by
  rw [step_of_store hop, hp, hv]
  rfl

namespace Environment

variable {e : Environment} {b : Builder}

/-- Results of code have values of their types. -/
theorem Sound.describes (hs : e.Sound b) (hf : e.Fits b) {i : Inst} (hi : i ∈ b.body.toList) {id : Ref}
    (hid : i.result = some id) (hframe : ¬ i.opcode.isFrame) :
    ∃ v, (e.after b).values[id.word]? = some v ∧ b.Describes id v := by
  rcases (hs.wellFormed.results i hi id hid).2 with ⟨-, h⟩ | ⟨t, -, ht⟩
  · exact absurd h hframe
  · obtain ⟨v, hv, htype⟩ := (hs.runs hf).values id t ht
    exact ⟨v, hv, describes_of_hasType (typeOf?_eq_some.2 ⟨_, ht, rfl⟩) htype⟩

/-- Stores write values of the type of their variable. -/
theorem Sound.writes (hs : e.Sound b) (hf : e.Fits b) {before after : List Inst} {i : Inst}
    (hi : b.body.toList = before ++ i :: after) (hop : i.opcode = .store) :
    ∃ m pointer t s v, e.start.steps b e.texels before = (m, none) ∧
      b.definition? pointer = some (.var t s) ∧ v.HasType b (b.containedType t) ∧
      m.step b e.texels i = .ok (m.write pointer v) := by
  obtain ⟨m, pointer, t, v, hm, hp, hd, hv, htype⟩ := (hs.runs hf).stores before i after hi hop
  exact ⟨m, pointer, t, _, v, hm, hd, htype, Machine.step_store e.texels hop hp hv⟩

end Environment

/-- The module of a program runs to its end on every memory that fits it, and all that it computes and
writes is of the types that it states. -/
theorem shade_never_stuck {settings : LiftSettings} {p : Program} {r : Except Failure Stats}
    {c : Context} (hp : p.defect? = none) (h : shade settings p = .ok (r, c))
    {memory : WordMap Value} (hm : c.close.Typed memory) (texels : Texels) :
    ∃ m, Machine.run c.close texels { memory } = (m, none) ∧
      (∀ i ∈ c.close.body.toList, ∀ id, i.result = some id → ¬ i.opcode.isFrame →
        ∃ v, m.values[id.word]? = some v ∧ c.close.Describes id v) ∧
      ∀ before i after, c.close.body.toList = before ++ i :: after → i.opcode = .store →
        ∃ m' pointer t s v, ({ memory } : Machine).steps c.close texels before = (m', none) ∧
          c.close.definition? pointer = some (.var t s) ∧
          v.HasType c.close (c.close.containedType t) ∧
          m'.step c.close texels i = .ok (m'.write pointer v) := by
  let x : Launch := ⟨⟨texels, memory⟩, fun _ => 0, settings.registerSlots⟩
  have hends : x.Ends p r c := Launch.shade_ends rfl hp h
  have hsound := hends.sound_close.1
  exact ⟨x.after c.close, (hsound.runs hm).done, fun _ hi _ hid => hsound.describes hm hi hid,
    fun _ _ _ hi => hsound.writes hm hi⟩

theorem shade_never_stuck_gradientProgram : gradientProgram.defect? = none ∧ ∃ c m,
    shade {} gradientProgram = .ok (.ok { emitted := 1, skipped := 1, queries := 1 }, c) ∧
    c.close.Typed ∅ ∧ Machine.run c.close (fun _ _ => ⟨5, 6, 7, 8⟩) {} = (m, none) := by
  obtain ⟨c, hc⟩ := exists_shade_gradientProgram
  have hm : c.close.Typed ∅ := fun id t s v _ h => by simp at h
  obtain ⟨m, hrun, -⟩ := shade_never_stuck (by decide) hc hm fun _ _ => ⟨5, 6, 7, 8⟩
  exact ⟨by decide, c, m, hc, hm, hrun⟩

end TextureLift
