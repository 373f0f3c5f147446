import TextureLift.Lowering.Fetch
import TextureLift.Proofs.Lowering.Instruction
import TextureLift.Proofs.Semantics.Program

/-!
# Variables and images

Loads of variables, stores to them, and samples of images. A variable other than an image always has
four lanes of floats, `Environment.contents e b p`; a load gives these, a store replaces them, and no
other code changes them. Samples are numbered by the requests that the machine has seen before.
-/

namespace TextureLift.Environment

open Builder Build Discipline

variable {e : Environment} {F : Fault → Prop} {b b' : Builder} {p t : Ref} {s : Storage}

/-! ## Contents -/

/-- The four lanes of a variable after a run. -/
def contents (e : Environment) (b : Builder) (p : Ref) : List UInt32 :=
  (List.range 4).map fun lane => ((e.after b).read b p).bits.getD lane 0

theorem length_contents : (e.contents b p).length = 4 := by
  unfold contents
  rw [List.length_map, List.length_range]

theorem four_lanes {bits : List UInt32} (h : bits.length = 4) :
    (List.range 4).map (fun lane => bits.getD lane 0) = bits := by
  match bits, h with
  | [_, _, _, _], _ => rfl

/-- A variable of floats that was never written reads as zeros. -/
theorem initialValue_of_type (hd : b.definition? p = some (.var t s)) (ht : b.VariableType t s)
    (hs : s ≠ .uniformConstant) : b.initialValue p = .lanes .f32 (List.replicate 4 0) := by
  obtain ⟨q, hq, hl⟩ := ht
  rw [if_neg hs] at hl
  have hof : b.typeOf? p = some t := typeOf?_eq_some.2 ⟨_, hd, rfl⟩
  have hc : b.containedType t = q := by simp only [containedType, hq]
  unfold initialValue
  simp only [hof, Option.getD_some, hq, hc, hl.scalarKind, hl.typeComponents]
  cases s with
  | uniformConstant => exact absurd rfl hs
  | _ => rfl

theorem initialValue_of_var (hb : b.WellFormed) (hd : b.definition? p = some (.var t s))
    (hs : s ≠ .uniformConstant) : b.initialValue p = .lanes .f32 (List.replicate 4 0) :=
  initialValue_of_type hd (hb.vars p t s hd) hs

/-- An image that was never written is itself. -/
theorem initialValue_of_image (hb : b.WellFormed)
    (hd : b.definition? p = some (.var t .uniformConstant)) : b.initialValue p = .image p := by
  obtain ⟨q, hq, -⟩ := hb.vars p t _ hd
  have hof : b.typeOf? p = some t := typeOf?_eq_some.2 ⟨_, hd, rfl⟩
  unfold initialValue
  simp only [hof, Option.getD_some, hq]

/-- Variables of floats hold four floats throughout. -/
theorem Sound.read_var (hs : e.Sound b) (hf : e.Fits b) (hd : b.definition? p = some (.var t s))
    (hne : s ≠ .uniformConstant) : (e.after b).read b p = .lanes .f32 (e.contents b p) := by
  have h4 : ∃ bits, (e.after b).read b p = .lanes .f32 bits ∧ bits.length = 4 := by
    have hr := hs.runs hf
    unfold Machine.read Machine.contents?
    cases hm : (e.after b).memory[p.word]? with
    | none => exact ⟨_, initialValue_of_var hs.wellFormed hd hne, rfl⟩
    | some v =>
      by_cases hp : s = .priv
      · rw [hp] at hd
        exact hr.written p t v hd hm
      · -- variables that are not private keep their first contents
        rw [hr.kept p fun t' h => hp (by rw [hd] at h; cases h; rfl)] at hm
        exact hf.four_floats hs.wellFormed hd hm
  obtain ⟨bits, hr, hlen⟩ := h4
  unfold contents
  rw [hr]
  exact congrArg (Value.lanes .f32) (four_lanes hlen).symm

theorem Sound.read_image (hs : e.Sound b) (hf : e.Fits b)
    (hd : b.definition? p = some (.var t .uniformConstant)) :
    (e.after b).read b p = .image p := by
  have hm : (e.after b).memory[p.word]? = none := by
    rw [(hs.runs hf).kept p fun t' h => by rw [hd] at h; cases h]
    cases hv : e.memory[p.word]? with
    | none => rfl
    | some v => exact absurd rfl (hf p t _ v hd hv).1
  unfold Machine.read Machine.contents?
  rw [hm]
  exact initialValue_of_image hs.wellFormed hd

/-- Contents depend on the memory and on the definition of the variable. -/
theorem contents_of_memory (hb : b.WellFormed) (h : TableLe b b')
    (hm : (e.after b').memory = (e.after b).memory) {d : Definition}
    (hd : b.definition? p = some d) : e.contents b' p = e.contents b p := by
  unfold contents Machine.read Machine.contents?
  rw [hm, hb.initialValue_eq h hd]

/-- The four lanes of a variable before a run. -/
def firstContents (e : Environment) (p : Ref) : List UInt32 :=
  (List.range 4).map fun lane =>
    ((e.memory[p.word]?).getD (.lanes .f32 (List.replicate 4 0))).bits.getD lane 0

/-- A variable that no code has written has its first contents. -/
theorem contents_of_kept (hb : b.WellFormed) (hd : b.definition? p = some (.var t s))
    (hs : s ≠ .uniformConstant) (hm : (e.after b).memory[p.word]? = e.memory[p.word]?) :
    e.contents b p = e.firstContents p := by
  unfold contents firstContents Machine.read Machine.contents?
  rw [hm, initialValue_of_var hb hd hs]

/-- A variable that was just declared has its first contents. -/
theorem Sound.contents_of_new (hs : e.Sound b) (hs' : e.Sound b') (hq : e.Quiet b b')
    (hf : e.Fits b') (hnew : b.definition? p = none) (hd : b'.definition? p = some (.var t s))
    (hne : s ≠ .uniformConstant) : e.contents b' p = e.firstContents p := by
  refine contents_of_kept hs'.wellFormed hd hne ?_
  rw [hq.memory hf]
  refine (hs.runs (hq.fits hf)).kept p fun t' h => ?_
  rw [hnew] at h
  cases h

/-! ## Loads and stores -/

/-- The type of what a variable points to. -/
theorem pointee_of_var (hb : b.WellFormed) (hd : b.definition? p = some (.var t s)) :
    if s = .uniformConstant then ∃ image, b.typeDecl? (b.containedType t) = some (.sampledImage image)
    else b.LaneType (b.containedType t) .f32 4 := by
  obtain ⟨q, hq, hl⟩ := hb.vars p t s hd
  have hc : b.containedType t = q := by simp only [containedType, hq]
  rw [hc]
  exact hl

/-- A load gives the four lanes of a variable. -/
theorem load_ensures (hF : F .idsExhausted) (hd : b.definition? p = some (.var t s))
    (hne : s ≠ .uniformConstant) :
    (e.quiet F).Ensures (load p) b fun id b' => e.Holds b' id .f32 (e.contents b p) := by
  refine Ensures.assume fun hs => ?_
  have hof : b.typeOf? p = some t := typeOf?_eq_some.2 ⟨_, hd, rfl⟩
  have hl := pointee_of_var hs.wellFormed hd
  rw [if_neg hne] at hl
  refine (typeOrNone_ensures hof).bind fun t' b₁ _ h => ?_
  obtain ⟨rfl, rfl⟩ := h
  have hlen : (e.contents b₁ p).length = (4 : UInt32).toNat := length_contents
  refine Ensures.get_bind ((emit_quiet hF rfl (by simp) (.inl ⟨_, _, hl⟩)
    (Usable.cons (by rw [hof]; rfl) .nil) (hl.hasType hlen) fun hf id => ?_).imp
    fun id b' hq h => ⟨⟨4, ⟨_, h.1, hl.mono hq.grows.table⟩, hlen⟩, h.2⟩)
  rw [← hs.read_var hf hd hne]
  rfl

/-- A load of an image gives the image of the variable. -/
theorem loadImage_ensures (hF : F .idsExhausted)
    (hd : b.definition? p = some (.var t .uniformConstant)) :
    (e.quiet F).Ensures (load p) b fun id b' => (b'.typeOf? id).isSome ∧
      (e.Fits b' → (e.after b').value? b' id = some (.image p)) := by
  refine Ensures.assume fun hs => ?_
  have hof : b.typeOf? p = some t := typeOf?_eq_some.2 ⟨_, hd, rfl⟩
  have hl := pointee_of_var hs.wellFormed hd
  rw [if_pos rfl] at hl
  refine (typeOrNone_ensures hof).bind fun t' b₁ _ h => ?_
  obtain ⟨rfl, rfl⟩ := h
  obtain ⟨base, hi⟩ := hl
  have htype : (Value.image p).HasType b₁ (b₁.containedType t') := ⟨base, hi⟩
  refine Ensures.get_bind ((emit_quiet hF rfl (by simp) (.inr ⟨base, hi⟩)
    (Usable.cons (by rw [hof]; rfl) .nil) htype fun hf id => ?_).imp
    fun id b' _ h => ⟨by rw [h.1]; rfl, h.2⟩)
  rw [← hs.read_image hf hd]
  rfl

/-- A store replaces the contents of a private variable. -/
theorem store_ensures {value : Ref} {bits : List UInt32}
    (hd : b.definition? p = some (.var t .priv)) (hv : e.Holds b value .f32 bits)
    (hlen : bits.length = 4) :
    (e.steady F).Ensures (store p value) b fun _ b' => b'.stores = b.stores ++ [storeInst p value] ∧
      (e.Fits b' → (∀ q, e.contents b' q = if q = p then bits else e.contents b q) ∧
        (e.after b').samples = (e.after b).samples) := by
  refine Ensures.of_ok (t := b.append (storeInst p value)) rfl fun hs => ?_
  obtain ⟨hs', hafter⟩ := hs.store hd hv.typeOf_isSome hlen hv.value rfl
  have hgrows : b.Grows (b.append (storeInst p value)) :=
    ⟨⟨TableLe.refl b, rfl, fun _ h => h⟩, [storeInst p value], Array.toList_push, fun i hi => by
      rw [List.mem_singleton.1 hi]
      exact ⟨rfl, Inst.formed_of_length rfl rfl (by simp [storeInst])⟩⟩
  refine ⟨hs', ⟨hgrows, fun hf => hf.anti hs.wellFormed (TableLe.refl b), ?_⟩,
    stores_append b (storeInst p value), ?_⟩
  · intro hf id v h
    rw [hafter hf]
    exact h
  · intro hf
    rw [hafter hf]
    refine ⟨fun q => ?_, rfl⟩
    have hinit : (b.append (storeInst p value)).initialValue q = b.initialValue q := rfl
    unfold contents Machine.read Machine.contents?
    rw [hafter hf, Machine.memory_write, hinit]
    by_cases hq : q = p
    · rw [if_pos hq, if_pos hq.symm]
      exact four_lanes hlen
    · rw [if_neg hq, if_neg (Ne.symm hq)]

/-! ## Samples -/

/-- The ids of a level of detail hold its numbers. -/
def HoldsDetail (e : Environment) (b : Builder) : FetchLod → Detail → Prop
  | .implicit, .implicit => True
  | .projective, .projective => True
  | .bias level, .bias x => e.Holds b level .f32 [x]
  | .gradient dx dy, .gradient xs ys => e.Holds b dx .f32 xs ∧ e.Holds b dy .f32 ys
  | _, _ => False

theorem HoldsDetail.mono {lod : FetchLod} {d : Detail} (h : e.HoldsDetail b lod d)
    (hl : e.Leads b b') : e.HoldsDetail b' lod d := by
  cases lod <;> cases d <;> first
    | exact h
    | exact Holds.mono h hl
    | exact ⟨h.1.mono hl, h.2.mono hl⟩

/-- Lanes that are known to be others whenever the memory fits. -/
theorem Holds.congr {id : Ref} {k : ScalarKind} {bits : List UInt32} (h : e.Holds b id k bits)
    (bits' : List UInt32) (hlen : bits'.length = bits.length) (heq : e.Fits b → bits' = bits) :
    e.Holds b id k bits' := by
  obtain ⟨n, hn, hl⟩ := h.lanes
  refine ⟨⟨n, hn, by rw [hlen, hl]⟩, fun hf => ?_⟩
  rw [heq hf]
  exact h.value hf

theorem length_texel (x : Texel) : x.lanes.length = 4 :=
  rfl

/-- An instruction that makes a request gives the texel for it. -/
theorem emitSample_ensures (hF : F .idsExhausted) {op : Opcode} {ops : List UInt32}
    {call : SampleCall} (hop : op = .imageSampleImplicitLod ∨ op = .imageSampleProjImplicitLod ∨
      op = .imageSampleExplicitLod) (hshort : ops.length ≤ 8) (ht : b.LaneType t .f32 4)
    (hscope : Usable b (Inst.mk op (some t) none ops).idWords)
    (hcall : e.Fits b → ∀ id, (e.after b).sampleCall b ⟨op, some t, some id, ops⟩ = .ok call) :
    (e.steady F).Ensures (emit op t ops) b fun id b' =>
      e.Holds b' id .f32 (e.texels (e.after b).samples.size call).lanes ∧ b'.stores = b.stores ∧
        (e.Fits b' → (e.after b').memory = (e.after b).memory ∧
          (e.after b').samples = (e.after b).samples.push call) := by
  have hyields : op.yields = true := by
    rcases hop with rfl | rfl | rfl <;> rfl
  have hsample : op.isImageSample = true := by
    rcases hop with rfl | rfl | rfl <;> rfl
  have hlen : (e.texels (e.after b).samples.size call).lanes.length = (4 : UInt32).toNat :=
    length_texel _
  refine (emit_steady hF ((e.after b).samples.push call) hyields hshort (.inl ⟨_, _, ht⟩) hscope
    (ht.hasType hlen) fun hf id => ?_).imp fun id b' hl h =>
      ⟨⟨⟨4, ⟨t, h.1, ht.mono hl.grows.table⟩, hlen⟩, fun hf => (h.2.2 hf).1⟩, h.2.1,
        fun hf => (h.2.2 hf).2⟩
  rw [Machine.step_of_isImageSample hsample, hcall hf id]
  rfl

/-- A sample makes the request for its coordinate and level of detail. -/
theorem sampleImage_ensures (hF : F .idsExhausted) {coord : Ref} {xs : List UInt32}
    {lod : FetchLod} {d : Detail} (hd : b.definition? p = some (.var t .uniformConstant))
    (hc : e.Holds b coord .f32 xs) (hlod : e.HoldsDetail b lod d) :
    (e.steady F).Ensures (Lowering.sampleImage p coord lod) b fun id b' =>
      e.Holds b' id .f32 (e.texels (e.after b).samples.size (d.request p xs)).lanes ∧
        b'.stores = b.stores ∧ (e.Fits b' → (e.after b').memory = (e.after b).memory ∧
          (e.after b').samples = (e.after b).samples.push (d.request p xs)) := by
  unfold Lowering.sampleImage
  refine (steady_of_quiet ((e.reckoning hF).floatVectorType_ensures 4)).bind fun vec b₁ _ h => ?_
  obtain ⟨q₁, hvec⟩ := h
  refine (steady_of_quiet (loadImage_ensures hF (q₁.grows.table.definition hd))).bind
    fun image b₂ _ h => ?_
  obtain ⟨q₂, himage, hval⟩ := h
  have q := q₁.trans q₂
  have hc₂ := hc.mono q.toLeads
  have hlod₂ := hlod.mono q.toLeads
  have ht := hvec.mono q₂.grows.table
  have hrequest {op : Opcode} {ops : List UInt32} {call : SampleCall}
      (hop : op = .imageSampleImplicitLod ∨ op = .imageSampleProjImplicitLod ∨
        op = .imageSampleExplicitLod) (hshort : ops.length ≤ 8)
      (hscope : Usable b₂ (Inst.mk op (some vec) none ops).idWords)
      (hcall : e.Fits b₂ → ∀ id, (e.after b₂).sampleCall b₂ ⟨op, some vec, some id, ops⟩ = .ok call) :
      (e.steady F).Ensures (emit op vec ops) b₂ fun id b' =>
        e.Holds b' id .f32 (e.texels (e.after b).samples.size call).lanes ∧ b'.stores = b.stores ∧
          (e.Fits b' → (e.after b').memory = (e.after b).memory ∧
            (e.after b').samples = (e.after b).samples.push call) := by
    refine (emitSample_ensures hF hop hshort ht hscope hcall).imp fun id b' hl h => ?_
    -- the requests so far are those before the image was loaded
    refine ⟨h.1.congr _ (by rw [length_texel, length_texel]) fun hf => by rw [q.samples (hl.fits hf)],
      h.2.1.trans q.stores, fun hf => ?_⟩
    obtain ⟨hm, hsm⟩ := h.2.2 hf
    exact ⟨hm.trans (q.memory (hl.fits hf)), by rw [hsm, q.samples (hl.fits hf)]⟩
  have himage₂ (hf : e.Fits b₂) : (e.after b₂).lookup b₂ image = .ok (.image p) := by
    unfold Machine.lookup
    rw [hval hf]
  match lod, d, hlod₂ with
  | .implicit, .implicit, _ =>
    exact hrequest (.inl rfl) (by simp) (Usable.cons himage (.cons hc₂.typeOf_isSome .nil)) fun hf id =>
      Machine.bind_ok (Machine.operand_of_lookup rfl (himage₂ hf))
        (Machine.bind_ok (Machine.floats_of_lookup rfl (hc₂.lookup hf)) rfl)
  | .projective, .projective, _ =>
    exact hrequest (.inr (.inl rfl)) (by simp) (Usable.cons himage (.cons hc₂.typeOf_isSome .nil)) fun hf id =>
      Machine.bind_ok (Machine.operand_of_lookup rfl (himage₂ hf))
        (Machine.bind_ok (Machine.floats_of_lookup rfl (hc₂.lookup hf)) rfl)
  | .bias level, .bias x, hlevel =>
    have hlevel : e.Holds b₂ level .f32 [x] := hlevel
    exact hrequest (.inr (.inr rfl)) (by simp) (Usable.cons himage (.cons hc₂.typeOf_isSome
      (.cons hlevel.typeOf_isSome .nil))) fun hf id =>
      Machine.bind_ok (Machine.operand_of_lookup rfl (himage₂ hf))
        (Machine.bind_ok (Machine.floats_of_lookup rfl (hc₂.lookup hf)) (Machine.bind_ok rfl
          (Machine.bind_ok (Machine.floats_of_lookup rfl (hlevel.lookup hf)) rfl)))
  | .gradient dx dy, .gradient us vs, ⟨hdx, hdy⟩ =>
    exact hrequest (.inr (.inr rfl)) (by simp) (Usable.cons himage (.cons hc₂.typeOf_isSome
      (.cons hdx.typeOf_isSome (.cons hdy.typeOf_isSome .nil)))) fun hf id =>
      Machine.bind_ok (Machine.operand_of_lookup rfl (himage₂ hf))
        (Machine.bind_ok (Machine.floats_of_lookup rfl (hc₂.lookup hf)) (Machine.bind_ok rfl
          (Machine.bind_ok (Machine.floats_of_lookup rfl (hdx.lookup hf))
            (Machine.bind_ok (Machine.floats_of_lookup rfl (hdy.lookup hf)) rfl))))

end TextureLift.Environment
