import TextureLift.Proofs.Lowering.Fetch
import TextureLift.Proofs.Lowering.Reading

/-!
# Packed coordinates in a passage

The code for a packed coordinate computes its elements, from any state of the machine and in any larger
module. The coordinate is a value or behind a pointer, and its words may be of any kind. Plain and
projective coordinates agree: the elements of a plain one come first in a projected one.
-/

namespace TextureLift

open Builder Build Discipline Lowering Number

/-- The id is a value of `n` floats, or a pointer to one. -/
def Builder.OffersFloats (b : Builder) (id : Ref) (n : Nat) : Prop :=
  b.Carries id .f32 n ∨ ∃ t s p, b.typeOf? id = some t ∧ b.typeDecl? t = some (.pointer s p) ∧
    b.Lanes p .f32 n

/-- The lanes of a value, or of the variable that it points to. -/
def Machine.rawLanes? (m : Machine) (b : Builder) (id : Ref) : Option (List UInt32) :=
  if b.isPointer id then some (m.read b id).bits else (m.value? b id).map Value.bits

namespace Builder

variable {b b' : Builder} {id : Ref} {k : ScalarKind} {n : Nat}

theorem isPointer_of_typeDecl {t p : Ref} {s : Storage} (ht : b.typeOf? id = some t)
    (hd : b.typeDecl? t = some (.pointer s p)) : b.isPointer id = true := by
  unfold isPointer
  rw [ht, Option.bind_some, hd]

theorem OffersFloats.defined (h : b.OffersFloats id n) : (b.definition? id).isSome := by
  rcases h with h | ⟨t, s, p, ht, -⟩
  · exact h.defined
  · obtain ⟨d, hd, -⟩ := typeOf?_eq_some.1 ht
    rw [hd]
    rfl

theorem OffersFloats.mono (h : b.OffersFloats id n) (hle : TableLe b b') : b'.OffersFloats id n := by
  rcases h with h | ⟨t, s, p, ht, hd, hl⟩
  · exact .inl (h.mono hle)
  · exact .inr ⟨t, s, p, hle.typeOf ht, hle.typeDecl hd, hl.mono hle⟩

end Builder

namespace Encoding

/-- The elements of a plain coordinate come first in a projected one. -/
theorem elements_prefix (e : Encoding) (components : List UInt32) (divisor : Nat) :
    (List.range (min 2 e.lanesPerComponent.toNat)).map (e.elementOrZero components) <+:
      [e.elementOrZero components 0, e.elementOrZero components 1,
        e.elementOrZero components divisor] := by
  have hpos : 0 < e.lanesPerComponent.toNat := lanesPerComponent_pos
  obtain h | h : min 2 e.lanesPerComponent.toNat = 1 ∨ min 2 e.lanesPerComponent.toNat = 2 := by omega
  · rw [h]
    exact ⟨_, rfl⟩
  · rw [h]
    exact ⟨_, rfl⟩

end Encoding

/-! ## Code for coordinates -/

namespace Passage

variable {x : Passage} {F : Fault → Prop} {b b' : Builder} {value : Ref} {e : Encoding}
  {ws : List UInt32}

/-- The coordinate is typed as floats, and its lanes are `ws`. -/
structure Offers (x : Passage) (b : Builder) (value : Ref) (ws : List UInt32) : Prop where
  typed : b.OffersFloats value ws.length
  lanes : x.Covers b → (x.after b).rawLanes? x.whole.builder value = some ws

theorem Offers.mono (h : x.Offers b value ws) (hq : x.Quiet b b') : x.Offers b' value ws := by
  refine ⟨h.typed.mono hq.table, fun hc => ?_⟩
  have hlanes := h.lanes (hq.covers hc)
  have hread : (x.after b').read = (x.after b).read := Machine.read_of_memory (hq.memory hc)
  have hvalue : (x.after b').value? x.whole.builder value = (x.after b).value? x.whole.builder value := by
    unfold Machine.value?
    rw [hq.values hc value h.typed.defined]
  unfold Machine.rawLanes? at hlanes ⊢
  rw [hread, hvalue]
  exact hlanes

section

variable (hF : F .idsExhausted)

include hF

theorem dereference_ensures (h : x.Offers b value ws) : (x.quiet F).Ensures (dereference value) b
    fun id b' => x.Bears b' id .f32 ws := by
  obtain ⟨htyped, hlanes⟩ := h
  apply Ensures.get_bind
  rcases htyped with hc | ⟨t, s, p, ht, hd, hl⟩
  · rw [hc.not_isPointer]
    refine Ensures.pure _ ⟨hc, fun hcovers => ?_⟩
    have hraw := hlanes hcovers
    unfold Machine.rawLanes? at hraw
    rw [(hc.mono hcovers).not_isPointer] at hraw
    exact Option.map_eq_some_iff.1 hraw
  · rw [isPointer_of_typeDecl ht hd]
    refine (load_step hF ht hd).imp fun id b' q hload =>
      ⟨⟨p, hload.1, hl.mono q.table⟩, fun hcovers => ?_⟩
    have hcovers' := q.covers hcovers
    have hraw := hlanes hcovers'
    unfold Machine.rawLanes? at hraw
    rw [isPointer_of_typeDecl (hcovers'.typeOf ht) (hcovers'.typeDecl hd)] at hraw
    exact ⟨_, hload.2 hcovers, Option.some.inj hraw⟩

/-- A packed coordinate for a plain fetch. It is of floats, so that the fetch takes it. -/
theorem normalizeCoord_ensures (he : e ≠ .f32) (h : x.Offers b value ws) (hpos : 0 < ws.length) :
    (x.quiet F).Ensures (normalizeCoord ⟨value, e⟩) b fun id b' => x.Holds b' id .f32
      ((List.range (min 2 e.lanesPerComponent.toNat)).map (e.elementOrZero ws)) :=
  Reckoning.normalizeCoord_packed (R := x.reckoning hF) he (dereference_ensures hF h) hpos

/-- A packed coordinate for a projective fetch. -/
theorem projectedCoord_ensures (he : e ≠ .f32) (h : x.Offers b value ws) (divisor : UInt8) :
    (x.quiet F).Ensures (projectedCoord ⟨value, e⟩ divisor) b fun id b' =>
      x.Holds b' id .f32
        [e.elementOrZero ws 0, e.elementOrZero ws 1, e.elementOrZero ws divisor.toNat] :=
  Reckoning.projectedCoord_packed (R := x.reckoning hF) he (dereference_ensures hF h) divisor

end

/-- A passage without a run. -/
theorem offers_blank {n : Nat} (h : b.OffersFloats value n) :
    (blank b).Offers b value (List.replicate n 0) := by
  refine ⟨by rwa [List.length_replicate], fun hc => ?_⟩
  obtain ⟨d, hd⟩ := Option.isSome_iff_exists.1 h.defined
  have hnone : ({ definitions := #[] } : Builder).definition? value = some d := hc.definition hd
  simp [definition?] at hnone

theorem offers_behind {whole : Emitter} {texels : Texels} {m : Machine}
    (h : b.OffersFloats value ws.length) (hm : m.rawLanes? whole.builder value = some ws) :
    (behind b whole texels m).Offers b value ws := by
  refine ⟨h, fun _ => ?_⟩
  rw [after_behind]
  exact hm

end Passage

/-! ## Ids that coordinates take -/

namespace Build.Takes

theorem dereference (value : Ref) : Takes 1 (dereference value) := by
  refine read fun b => ?_
  split
  · exact load value
  · exact (pure value).mono (Nat.zero_le 1)

theorem unpackAll (raw : Ref) (e : Encoding) : Takes 55 (unpackAll raw e) := by
  unfold Lowering.unpackAll
  split
  · exact (pure raw).mono (Nat.zero_le 55)
  · exact (unpackHalves raw).mono (by decide)
  · have hlanes : Takes 52 ((List.range e.lanesPerComponent.toNat).mapM fun lane =>
        Lowering.unpackLane raw e (.ofNat lane)) := by
      refine (mapM_of_mem (n := 13) fun lane hlane =>
        unpackLane (Encoding.ofNat_lt_lanesPerComponent hlane) raw).mono ?_
      rw [List.length_range]
      cases e <;> decide
    refine bind (m := 54) (intern _) fun float => bind (m := 2) hlanes fun lanes => ?_
    split
    · exact (pure _).mono (Nat.zero_le 2)
    · exact (vectorType _ _).bind fun _ => emit

theorem unpackCoord (value : Ref) (e : Encoding) : Takes 63 (unpackCoord value e) := by
  have hclip (raw : Ref) : Takes 58 (do
      let lanes ← Lowering.unpackAll raw e
      if 2 < (← get).components lanes then Build.shuffle (← Build.floatVectorType 2) lanes lanes [0, 1]
      else return lanes) := by
    refine bind (m := 3) (unpackAll raw e) fun lanes => read fun b => ?_
    split
    · exact (floatVectorType 2).bind fun _ => emit
    · exact (pure lanes).mono (Nat.zero_le 3)
  refine bind (m := 62) (dereference value) fun base => read fun b => ?_
  split
  · exact (intern _).bind fun _ => (constant _ _).bind fun _ => emit.bind fun raw => hclip raw
  · exact (hclip base).mono (by decide)

theorem coordElement (base : Ref) (count : UInt32) (e : Encoding) (n : UInt32) :
    Takes 14 (coordElement base count e n) := by
  have hlane (raw : Ref) : Takes 13 (Lowering.unpackLane raw e (n % e.lanesPerComponent)) :=
    unpackLane (UInt32.mod_lt _ Encoding.lanesPerComponent_pos) raw
  unfold Lowering.coordElement
  dsimp only
  split
  · exact (constant _ _).mono (by decide)
  · split
    · exact (extract _ _).bind fun raw => hlane raw
    · exact (hlane base).mono (by decide)

theorem projectedCoord (coord : Coord) (divisor : UInt8) : Takes 46 (projectedCoord coord divisor) := by
  refine bind (m := 45) (dereference _) fun base => bind (m := 43) (floatVectorType 3) fun vec => ?_
  split
  · exact emit.mono (by decide)
  · exact read fun b => (coordElement _ _ _ _).bind fun _ => (coordElement _ _ _ _).bind fun _ =>
      (coordElement _ _ _ _).bind fun _ => emit

end Build.Takes

namespace Emit.Takes

variable {α β : Type} {F : Fault → Prop} {n m : Nat}

/-- A sequence on the module, as a sequence on registers too. -/
theorem lift_bind (a : Build α) (f : α → Build β) :
    (liftM (a >>= f) : Emit β) = liftM a >>= fun v => liftM (f v) := by
  funext s
  show ((a s.builder >>= fun r => f r.1 r.2) >>= _) = (a s.builder >>= _) >>= _
  cases a s.builder <;> rfl

/-- A value that has to be of floats. -/
theorem floatsOnly (hF : ∀ id, F (.coordNotFloat id)) (value : Ref) : Takes F 0 (liftM (do
    if (← get).isFloat value then return value else throw (.coordNotFloat value) : Build Ref) : Emit Ref) := by
  have hrun (s : Emitter) : (liftM (do
      if (← get).isFloat value then return value else throw (.coordNotFloat value) : Build Ref) :
      Emit Ref) s = if s.builder.isFloat value then .ok (value, s) else .error (.coordNotFloat value) := by
    show ((if s.builder.isFloat value then _ else _ : Build Ref) s.builder >>= _) = _
    cases s.builder.isFloat value <;> rfl
  constructor
  · intro s v t h
    rw [hrun] at h
    split at h <;> cases h
    exact Nat.le_refl _
  · intro s v t h
    rw [hrun] at h
    split at h <;> cases h
    rfl
  · intro s f h
    rw [hrun] at h
    split at h <;> cases h
    exact .inl (hF value)

/-- A coordinate of a fetch. -/
theorem normalizeCoord (hF : ∀ id, F (.coordNotFloat id)) (coord : Coord) :
    Takes F 64 (liftM (normalizeCoord coord) : Emit Ref) := by
  have hrest (unpacked : Ref) : Takes F 1 (liftM (do
      let value ← dereference unpacked
      if (← get).isFloat value then return value else throw (.coordNotFloat value) : Build Ref) :
      Emit Ref) := by
    rw [lift_bind]
    exact (lift (.dereference unpacked)).bind fun value => floatsOnly hF value
  unfold Lowering.normalizeCoord
  split
  · exact (hrest coord.value).mono (by decide)
  · rw [lift_bind]
    exact (lift (.unpackCoord _ _)).bind hrest

end Emit.Takes

/-! ## Both kinds of coordinates -/

/-- The action appends code that runs to its end and only computes, from any state of the machine and in
any larger module. The `n` lanes of a coordinate are related to the results of the action and to the
values after the code. -/
def Build.Unpacks {α : Type} (a : Build α) (b : Builder) (value : Ref) (n : Nat)
    (Q : List UInt32 → α → (Ref → Option Value) → Prop) : Prop :=
  ∀ r b', a b = .ok (r, b') → TableLe b b' ∧ ∃ code, b'.body.toList = b.body.toList ++ code ∧
    ∀ (t : Builder) (texels : Texels) (m : Machine) (ws : List UInt32), TableLe b' t →
      m.Unshadowed t → m.rawLanes? t value = some ws → ws.length = n →
      ∃ m', m.steps t texels code = (m', none) ∧ m'.memory = m.memory ∧ m'.samples = m.samples ∧
        Q ws r (m'.value? t)

theorem Passage.unpacks {α : Type} {a : Build α} {b : Builder} {value : Ref} {n : Nat}
    {P : Passage → List UInt32 → α → Builder → Prop} {Q : List UInt32 → α → (Ref → Option Value) → Prop}
    (hsize : b.definitions.size < UInt32.size) (hvalue : b.OffersFloats value n)
    (h : ∀ (x : Passage) ws, x.Offers b value ws → ws.length = n →
      (x.quiet fun _ => True).Ensures a b (P x ws))
    (hQ : ∀ (x : Passage) ws r b', P x ws r b' → x.Covers b' →
      Q ws r ((x.after b').value? x.whole.builder)) : Build.Unpacks a b value n Q := by
  intro r b' hrun
  -- the code is the same for all machines, so it may be taken from a passage without a run
  obtain ⟨-, hgrow, -⟩ := (h _ _ (offers_blank hvalue) List.length_replicate).result (keeps_blank hsize) hrun
  obtain ⟨code, hcode⟩ := hgrow.body
  refine ⟨hgrow.table, code, hcode, ?_⟩
  intro t texels m ws htable hm hws hlen
  have hoffers : (behind b ⟨t, ⟨0, []⟩⟩ texels m).Offers b value ws := offers_behind (hlen ▸ hvalue) hws
  obtain ⟨hkeeps, hquiet, hP⟩ := (h _ ws hoffers hlen).result (keeps_behind hsize hm) hrun
  refine ⟨_, steps_behind hkeeps hcode htable, ?_, ?_, hQ _ ws r b' hP htable⟩
  · rw [hquiet.memory htable, after_behind]
  · rw [hquiet.samples htable, after_behind]

/-- A packed coordinate of floats is never refused. -/
theorem normalizeCoord_stops {e : Encoding} (he : e ≠ .f32) {b : Builder} {value : Ref} {n : Nat}
    (hn : 0 < n) (hvalue : b.OffersFloats value n) (hsize : b.definitions.size < UInt32.size) {f : Fault}
    (h : normalizeCoord ⟨value, e⟩ b = .error f) :
    f = .idsExhausted ∧ UInt32.size ≤ b.definitions.size + 64 := by
  have hids : f = .idsExhausted := (Passage.normalizeCoord_ensures (F := (· = .idsExhausted)) rfl he
    (Passage.offers_blank hvalue) (by rwa [List.length_replicate])).fault (Passage.keeps_blank hsize) h
  have hlift : (liftM (normalizeCoord ⟨value, e⟩) : Emit Ref) ⟨b, ⟨0, []⟩⟩ = .error f := by
    rw [Emit.Takes.run_lift, h]
    rfl
  have htakes := Emit.Takes.normalizeCoord (F := fun f => ∃ id, f = .coordNotFloat id)
    (fun id => ⟨id, rfl⟩) ⟨value, e⟩
  rcases htakes.stops hlift with ⟨id, hid⟩ | hbound
  · rw [hids] at hid
    cases hid
  · exact hbound

/-- The code for a plain fetch gives the first one or two elements of a packed coordinate, and the code
for a projective fetch elements 0 and 1 and the divisor. So they agree on the lanes that both have. The
code can be emitted unless ids run out, of which it takes at most 64 or 46. -/
theorem packedCoord_elements {e : Encoding} (he : e ≠ .f32) {b : Builder} {value : Ref} {n : Nat}
    (hn : 0 < n) (hvalue : b.OffersFloats value n) (hsize : b.definitions.size < UInt32.size) :
    (∀ f, normalizeCoord ⟨value, e⟩ b = .error f →
      f = .idsExhausted ∧ UInt32.size ≤ b.definitions.size + 64) ∧
    Build.Unpacks (normalizeCoord ⟨value, e⟩) b value n (fun ws id values =>
      values id = some (.lanes .f32
        ((List.range (min 2 e.lanesPerComponent.toNat)).map (e.elementOrZero ws)))) ∧
    ∀ divisor : UInt8,
      (∀ f, projectedCoord ⟨value, e⟩ divisor b = .error f →
        f = .idsExhausted ∧ UInt32.size ≤ b.definitions.size + 46) ∧
      Build.Unpacks (projectedCoord ⟨value, e⟩ divisor) b value n (fun ws id values =>
        values id = some (.lanes .f32
          [e.elementOrZero ws 0, e.elementOrZero ws 1, e.elementOrZero ws divisor.toNat])) ∧
      Build.Unpacks (do
        let plain ← normalizeCoord ⟨value, e⟩
        let projected ← projectedCoord ⟨value, e⟩ divisor
        return (plain, projected)) b value n (fun _ ids values =>
          ∃ xs ys, values ids.1 = some (.lanes .f32 xs) ∧ values ids.2 = some (.lanes .f32 ys) ∧
            xs <+: ys) := by
  have hplain (x : Passage) (ws : List UInt32) (hx : x.Offers b value ws) (hlen : ws.length = n) :=
    Passage.normalizeCoord_ensures (F := fun _ => True) trivial he hx (hlen ▸ hn)
  refine ⟨fun f => normalizeCoord_stops he hn hvalue hsize, Passage.unpacks hsize hvalue hplain
    fun _ _ _ _ hid hc => hid.value hc, ?_⟩
  intro divisor
  have hprojected (x : Passage) (b' : Builder) (ws : List UInt32) (hx : x.Offers b' value ws)
      (_ : ws.length = n) :=
    Passage.projectedCoord_ensures (F := fun _ => True) trivial he hx divisor
  refine ⟨fun f hf => ?_, Passage.unpacks hsize hvalue (fun x => hprojected x b)
    fun _ _ _ _ hid hc => hid.value hc, ?_⟩
  · have htakes := Build.Takes.projectedCoord ⟨value, e⟩ divisor b
    rw [hf] at htakes
    exact htakes
  · apply Passage.unpacks hsize hvalue
      (P := fun x ws ids b' => x.Holds b' ids.1 .f32 _ ∧ x.Holds b' ids.2 .f32 _)
    · intro x ws hx hlen
      refine (hplain x ws hx hlen).bind fun plain b₁ q₁ hfirst => ?_
      refine (hprojected x b₁ ws (hx.mono q₁) hlen).bind fun projected b₂ q₂ hsecond => ?_
      exact Ensures.pure _ ⟨hfirst.mono q₂.toLeads, hsecond⟩
    · intro x ws ids b' hids hc
      exact ⟨_, _, hids.1.value hc, hids.2.value hc, e.elements_prefix ws divisor.toNat⟩

/-- A module with one input. -/
def oneInput : Builder where
  definitions := #[.plain, .type (.float 32), .type (.vector ⟨1⟩ 4), .type (.pointer .input ⟨2⟩),
    .var ⟨3⟩ .input]

/-- The machine after four pairs of halves were written there, as words. -/
def oneInputWritten : Machine where
  memory := (∅ : WordMap Value).insert 4 (.lanes .u32 [0x38003C00, 0x40004000, 0, 0x44004400])

theorem packedCoord_elements_halves :
    Encoding.f16 ≠ .f32 ∧ 0 < 4 ∧ oneInput.OffersFloats ⟨4⟩ 4 ∧
      oneInput.definitions.size < UInt32.size ∧
      ∃ id b' code m', projectedCoord ⟨⟨4⟩, .f16⟩ 3 oneInput = .ok (id, b') ∧
        b'.body.toList = code ∧
        oneInputWritten.steps b' (fun _ _ => ⟨0, 0, 0, 0⟩) code = (m', none) ∧
        m'.value? b' id = some (.lanes .f32 [Single.one, 0x3F000000, 0x40000000]) := by
  have he : Encoding.f16 ≠ .f32 := by decide
  have hvalue : oneInput.OffersFloats ⟨4⟩ 4 :=
    .inr ⟨⟨3⟩, .input, ⟨2⟩, rfl, rfl, rfl, rfl, fun _ _ h => (by cases h), fun _ h => by cases h⟩
  have hsize : oneInput.definitions.size < UInt32.size := by decide
  refine ⟨he, by decide, hvalue, hsize, ?_⟩
  obtain ⟨hfail, hcode, -⟩ := (packedCoord_elements he (by decide) hvalue hsize).2.2 3
  obtain ⟨⟨id, b'⟩, hrun⟩ : ∃ r, projectedCoord ⟨⟨4⟩, .f16⟩ 3 oneInput = .ok r := by
    cases hrun : projectedCoord ⟨⟨4⟩, .f16⟩ 3 oneInput with
    | error f => exact absurd (hfail f hrun).2 (by decide)
    | ok r => exact ⟨r, rfl⟩
  obtain ⟨htable, code, hbody, h⟩ := hcode id b' hrun
  have hpointer : b'.isPointer ⟨4⟩ = true :=
    isPointer_of_typeDecl (htable.typeOf (t := ⟨3⟩) rfl) (htable.typeDecl rfl)
  have hread : oneInputWritten.read b' ⟨4⟩ =
      .lanes .u32 [0x38003C00, 0x40004000, 0, 0x44004400] := by
    unfold Machine.read Machine.contents? oneInputWritten
    rw [Std.ExtTreeMap.getElem?_insert_self]
    rfl
  have hraw : oneInputWritten.rawLanes? b' ⟨4⟩ = some [0x38003C00, 0x40004000, 0, 0x44004400] := by
    unfold Machine.rawLanes?
    rw [if_pos hpointer, hread]
    rfl
  obtain ⟨m', hsteps, -, -, hm⟩ := h b' (fun _ _ => ⟨0, 0, 0, 0⟩) oneInputWritten _ (TableLe.refl b')
    (fun _ _ _ _ => Std.ExtTreeMap.getElem?_empty) hraw rfl
  refine ⟨id, b', code, m', hrun, hbody, hsteps, ?_⟩
  rw [hm]
  decide

end TextureLift
