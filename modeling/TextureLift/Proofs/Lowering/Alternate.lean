import TextureLift.Proofs.Lowering.Frame
import TextureLift.Proofs.Lowering.Parting
import TextureLift.Proofs.Lowering.Transfer
import TextureLift.Proofs.Semantics.Window

/-!
# Code of the two windows

The variables of the alternate window part the code of a program. What is loaded from a window is on
its side, stores take what is on the outside, and so do requests, but for the second gradient of a
sample with three dimensions. The set of variables grows with the slots that are touched: a new one is
in no operand so far, so that ids stay on their sides.

    c.Requested fs   the body of `c` makes the requests of `fs` in order, with such operands
-/

namespace TextureLift

open Build Discipline Lowering

/-- How the level of detail of a query is chosen. -/
def QueryDesc.lod (q : QueryDesc) : FetchLod :=
  if q.divisorLane.isSome then .projective else .implicit

/-- The variables of the alternate window. -/
def RegisterFile.IsAlternate (r : RegisterFile) (id : Ref) : Prop :=
  ∃ slot, r.variableOf? slot = some id ∧ slot.window = Window.alternate

/-- The side that values of a window are on. -/
def Window.side (w : UInt8) : Side :=
  if w = alternate then .within else .without

namespace Fetch

/-- The sampler that a fetch names. -/
def sampler : Fetch → UInt32
  | query q _ => q.sampler
  | sample i _ => i.samplerNumber

/-- How the level of detail of a fetch may be chosen. -/
def Takes : Fetch → FetchLod → Prop
  | query q _, lod => lod = q.lod
  | sample i _, lod => i.DetailFrom (fun _ _ => True) lod

/-- The instruction makes the request of a fetch: it samples an image that the code loads from the
variable of the sampler. -/
def AskedBy (samplers : SamplerTable) (code : List Inst) (f : Fetch) (i : Inst) : Prop :=
  ∃ info lod, samplers.get? f.sampler = some info ∧ f.Takes lod ∧ i.Asks code info.id lod

theorem AskedBy.mono {samplers : SamplerTable} {code code' : List Inst} {f : Fetch} {i : Inst}
    (h : f.AskedBy samplers code i) (hcode : code ⊆ code') : f.AskedBy samplers code' i := by
  obtain ⟨info, lod, hinfo, htakes, hasks⟩ := h
  exact ⟨info, lod, hinfo, htakes, hasks.mono hcode⟩

end Fetch

namespace Emitter

variable {s s' s'' : Emitter} {side : Side} {id : Ref} {free : Prop}

/-- The id is on a side of the alternate window. -/
def Clear (s : Emitter) (side : Side) (id : Ref) : Prop :=
  s.builder.Clear s.registers.IsAlternate side id

/-- The same of what may be loaded from the window as a whole. -/
def Sided (s : Emitter) (side : Side) (id : Ref) : Prop :=
  s.builder.Sided s.registers.IsAlternate side id

/-- The alternate window parts the module, and distinct slots have distinct private variables. -/
structure Parted (s : Emitter) : Prop where
  builder : s.builder.Parted s.registers.IsAlternate
  declared : ∀ slot id, s.registers.variableOf? slot = some id →
    ∃ t, s.builder.definition? id = some (.var t .priv)
  injective : ∀ slot slot' id, s.registers.variableOf? slot = some id →
    s.registers.variableOf? slot' = some id → slot = slot'

/-- Definitions, code and the size of the banks stay, and ids stay on their side. -/
structure Parts (s s' : Emitter) : Prop where
  sized : s'.registers.slotsPerBank = s.registers.slotsPerBank
  table : Builder.TableLe s.builder s'.builder
  code : s.builder.body.toList <+: s'.builder.body.toList
  clear : ∀ side id, s.Clear side id → s'.Clear side id

/-- The same without new samples. -/
structure Calms (s s' : Emitter) : Prop extends Parts s s' where
  samples : samplesOf s'.builder.body.toList = samplesOf s.builder.body.toList

theorem Parts.refl (s : Emitter) : Parts s s :=
  ⟨rfl, Builder.TableLe.refl _, List.prefix_rfl, fun _ _ h => h⟩

theorem Parts.trans (h : Parts s s') (h' : Parts s' s'') : Parts s s'' where
  sized := h'.sized.trans h.sized
  table := h.table.trans h'.table
  code := h.code.trans h'.code
  clear side id hid := h'.clear side id (h.clear side id hid)

theorem Calms.refl (s : Emitter) : Calms s s :=
  ⟨Parts.refl s, rfl⟩

theorem Calms.trans (h : Calms s s') (h' : Calms s' s'') : Calms s s'' :=
  ⟨h.toParts.trans h'.toParts, h'.samples.trans h.samples⟩

/-- Actions that keep the windows apart. -/
def parting : Discipline Emitter where
  keeps := Parted
  leads := Parts
  faults _ := True
  refl := Parts.refl
  trans := Parts.trans

/-- Actions that keep the windows apart and emit no sample. -/
def calm : Discipline Emitter where
  keeps := Parted
  leads := Calms
  faults _ := True
  refl := Calms.refl
  trans := Calms.trans

theorem parting_of_calm {α : Type} {a : Emit α} {Q : α → Emitter → Prop} (h : calm.Ensures a s Q) :
    parting.Ensures a s fun v s' => Calms s s' ∧ Q v s' :=
  (h.imp fun _ _ hl hQ => ⟨hl, hQ⟩).weaken (fun h => h) (fun _ _ h1 h2 _ => ⟨h1, h2.toParts⟩)
    fun _ hf => hf

/-! ## Builder actions -/

theorem Parted.grow (h : s.Parted) {b : Builder} (hb : b.Parted s.registers.IsAlternate)
    (hle : Builder.TableLe s.builder b) : Parted ⟨b, s.registers⟩ := by
  refine ⟨hb, fun slot id hid => ?_, h.injective⟩
  obtain ⟨t, ht⟩ := h.declared slot id hid
  exact ⟨t, hle.definition ht⟩

theorem lift_calm {α : Type} {a : Build α} {Q : α → Builder → Prop}
    (h : (Builder.calm s.registers.IsAlternate).Ensures a s.builder Q) :
    calm.Ensures (liftM a) s fun v s' => Q v s'.builder ∧ s'.registers = s.registers :=
  Emit.lift_ensures h (fun hk => hk.builder) (fun _ hf => hf) fun _ _ hk hb hl _ =>
    ⟨hk.grow hb hl.table, ⟨rfl, hl.table, hl.code, hl.clear⟩, hl.samples⟩

theorem lift_parting {α : Type} {a : Build α} {Q : α → Builder → Prop}
    (h : (Builder.parting s.registers.IsAlternate).Ensures a s.builder Q) :
    parting.Ensures (liftM a) s fun v s' => Q v s'.builder ∧ s'.registers = s.registers :=
  Emit.lift_ensures h (fun hk => hk.builder) (fun _ hf => hf) fun _ _ hk hb hl _ =>
    ⟨hk.grow hb hl.table, rfl, hl.table, hl.code, hl.clear⟩

/-- Computations are on a side in the emitter if they are in the module. -/
theorem lift_clear {a : Build Ref} (h : (Builder.calm s.registers.IsAlternate).Ensures a s.builder
      fun id b' => b'.Clear s.registers.IsAlternate side id) :
    calm.Ensures (liftM a) s fun id s' => s'.Clear side id :=
  (lift_calm h).imp fun id s' _ ⟨hid, hreg⟩ => by
    unfold Clear
    rw [hreg]
    exact hid

variable {texture : Ref} {lod : FetchLod}

/-- Code that makes one request, of the image of a variable. -/
def Requests (free : Prop) (texture : Ref) (lod : FetchLod) (s s' : Emitter) : Prop :=
  ∃ i, samplesOf s'.builder.body.toList = samplesOf s.builder.body.toList ++ [i] ∧
    i.Sampled s'.Clear free ∧ i.Asks s'.builder.body.toList texture lod

theorem Requests.of_calms (h : Requests free texture lod s s') (hl : Calms s' s'') :
    Requests free texture lod s s'' := by
  obtain ⟨i, hsamples, hi, hasks⟩ := h
  exact ⟨i, hl.samples.trans hsamples, hi.imp hl.clear, hasks.mono hl.code.subset⟩

theorem Requests.after_calms (hl : Calms s s') (h : Requests free texture lod s' s'') :
    Requests free texture lod s s'' := by
  obtain ⟨i, hsamples, hi⟩ := h
  rw [hl.samples] at hsamples
  exact ⟨i, hsamples, hi⟩

theorem fetch_parts {coord : Coord} {dest : Encoding} (ht : s.Clear .without texture) (hc : s.Clear .without coord.value)
    (hlod : s.builder.LodClear s.registers.IsAlternate free lod) :
    parting.Ensures (liftM (fetch texture coord dest lod)) s fun id s' =>
      s'.Clear .without id ∧ Requests free texture lod s s' := by
  refine (lift_parting (Builder.fetch_requests ht hc hlod)).imp
    fun id s' _ ⟨⟨hid, hrequests⟩, hreg⟩ => ?_
  unfold Requests Clear
  rw [hreg]
  exact ⟨hid, hrequests⟩

/-! ## Slots -/

/-- A new variable changes the window for no id that was defined before. -/
theorem isAlternate_insert {slot : Slot} {id id' : Ref} (hnone : s.registers.variableOf? slot = none)
    (hne : id' ≠ id) :
    (s.registers.insert slot id).IsAlternate id' ↔ s.registers.IsAlternate id' := by
  refine exists_congr fun slot' => and_congr_left fun _ => ?_
  rw [RegisterFile.variableOf?_insert]
  split
  · rename_i heq
    rw [heq, hnone]
    exact ⟨fun h => absurd (Option.some.inj h).symm hne, nofun⟩
  · rfl

/-- A new variable for a slot. It was no operand of anything. -/
theorem declareSlot_calm {slot : Slot} {vec : Ref} (hnone : s.registers.variableOf? slot = none) :
    calm.Ensures (do
      let id ← variableOf .priv vec
      modify fun s => { s with registers := s.registers.insert slot id }
      return id) s fun id s' => s'.registers.variableOf? slot = some id := by
  cases hrun : variableOf .priv vec s.builder with
  | error f =>
    refine Ensures.of_error (f := f) ?_ trivial
    show ((variableOf .priv vec s.builder >>= _) >>= _) = _
    rw [hrun]
    rfl
  | ok r =>
    obtain ⟨id, b⟩ := r
    refine Ensures.of_ok (v := id) (t := ⟨b, s.registers.insert slot id⟩) ?_ fun hk => ?_
    · show ((variableOf .priv vec s.builder >>= _) >>= _) = _
      rw [hrun]
      rfl
    obtain ⟨hb, hl, hbody, hnew, t, ht⟩ := Builder.variableOf_calm.result hk.builder hrun
    have hother {id' : Ref} (hid' : (s.builder.definition? id').isSome) : id' ≠ id := by
      rintro rfl
      rw [hnew] at hid'
      cases hid'
    have hV (id' : Ref) (hid' : (s.builder.definition? id').isSome) :
        (s.registers.insert slot id).IsAlternate id' ↔ s.registers.IsAlternate id' :=
      isAlternate_insert hnone (hother hid')
    have hdeclared : ∀ slot' id', (s.registers.insert slot id).variableOf? slot' = some id' →
        ∃ t, b.definition? id' = some (.var t .priv) :=
      RegisterFile.forall_insert ⟨t, ht⟩ fun slot' id' h =>
        (hk.declared slot' id' h).imp fun _ ht' => hl.table.definition ht'
    refine ⟨⟨?_, hdeclared, RegisterFile.injective_insert (fun slot' id' h => hother ?_) hk.injective⟩,
      ⟨⟨rfl, hl.table, hl.code, fun side id' h => ?_⟩, hl.samples⟩, ?_⟩
    · exact hk.builder.of_body hl.table hbody hV hb.size_lt
        (fun id' ⟨slot', h, _⟩ => hdeclared slot' id' h) hb.imported
    · obtain ⟨t', ht'⟩ := hk.declared slot' id' h
      rw [ht']
      rfl
    · exact hk.builder.clear_of_body hl.table hbody hV h
    · show (s.registers.insert slot id).variableOf? slot = some id
      rw [RegisterFile.variableOf?_insert, if_pos rfl]

theorem slotVariable_calm {slot : Slot} :
    calm.Ensures (Emit.slotVariable slot) s fun id s' => s'.registers.variableOf? slot = some id := by
  unfold Emit.slotVariable
  refine Ensures.get_bind ?_
  cases hv : s.registers.variableOf? slot with
  | some id => exact Ensures.pure _ hv
  | none =>
    refine (lift_calm Builder.floatVectorType_calm).bind fun vec s₁ _ ⟨_, hreg⟩ => declareSlot_calm ?_
    rw [hreg]
    exact hv

/-- The variable of a slot is on the side of its window. -/
theorem Parted.owns (h : s.Parted) {slot : Slot} (hid : s.registers.variableOf? slot = some id) :
    (Window.side slot.window).Owns s.registers.IsAlternate id := by
  unfold Window.side
  split
  · rename_i hw
    exact ⟨slot, hid, hw⟩
  · rename_i hw
    rintro ⟨slot', hid', hw'⟩
    rw [h.injective slot slot' id hid hid'] at hw
    exact hw hw'

theorem load_slot {slot : Slot} (hid : s.registers.variableOf? slot = some id) :
    calm.Ensures (liftM (load id)) s fun v s' => s'.Sided (Window.side slot.window) v := by
  refine Ensures.assume fun hk => ?_
  obtain ⟨t, ht⟩ := hk.declared slot id hid
  refine (lift_calm (Builder.load_calm (by rw [ht]; rfl) (hk.owns hid))).imp
    fun v s' _ ⟨⟨hv, _⟩, hreg⟩ => ?_
  unfold Sided
  rw [hreg]
  exact hv

theorem loadComponent_calm {bank : Bank} {window : UInt8} {component : UInt32} :
    calm.Ensures (Emit.loadComponent bank window component) s fun id s' =>
      s'.Clear (Window.side window) id :=
  slotVariable_calm.bind fun _ _ _ hp => (load_slot hp).bind fun _ _ _ hfour =>
    lift_clear (Builder.extract_lane (by rw [UInt32.toNat_mod]; exact Nat.mod_lt _ (by decide)) hfour)

theorem storeComponent_calm {bank : Bank} {component : UInt32} {value : Ref}
    (hv : s.Clear .without value) :
    calm.Ensures (Emit.storeComponent bank Window.primary component value) s fun _ _ => True := by
  unfold Emit.storeComponent
  refine slotVariable_calm.bind fun pointer s₁ l₁ hp => (load_slot hp).bind fun four s₂ l₂ hfour => ?_
  have hfour : s₂.Clear .without four := Builder.Sided.clear_without hfour
  refine (lift_clear (Builder.insert_calm ((l₁.trans l₂).clear _ _ hv) hfour)).bind
    fun updated s₃ _ hupdated => ?_
  exact (lift_calm (Builder.store_calm hupdated)).imp fun _ _ _ _ => trivial

/-- What is loaded from a window is on its side. -/
theorem calm_transfers : Transfers calm fun w id s => s.Clear (Window.side w) id where
  overflow := trivial
  sized h := h.sized
  lasts h hid := h.clear _ _ hid
  type := (lift_calm Builder.type_calm).imp fun _ _ _ _ => trivial
  vector := (lift_calm Builder.floatVectorType_calm).imp fun _ _ _ _ => trivial
  constant w := lift_clear (Builder.floatConstant_calm.imp fun _ _ _ h => h (Window.side w))
  construct h := lift_clear (Builder.construct_calm h)
  unpack h := lift_clear (Builder.unpackLane_calm h)
  load _ := loadComponent_calm
  encode h := lift_clear (Builder.encodeValue_calm h)
  pick h := lift_clear (Builder.pickLane_calm h)
  bitcast h := lift_clear (Builder.bitcast_calm h)
  bits h := lift_clear (Builder.laneBits_calm h)
  merge h h' := lift_clear (Builder.mergeLane_calm h h')
  store _ h := storeComponent_calm h

/-! ## Queries and samples -/

theorem emitQuery_parts {q : Query} (ht : s.Clear .without texture)
    (hc : s.Clear .without q.coord.value) :
    parting.Ensures (emitQuery texture q) s fun _ s' =>
      Requests False texture (if q.divisorLane.isSome then .projective else .implicit) s s' := by
  have hstore {s₁ s₂ : Emitter} {texel : Ref} {lod : FetchLod} (hl : Calms s s₁)
      (h : s₂.Clear .without texel ∧ Requests False texture lod s₁ s₂) :
      parting.Ensures (Emit.store { bank := .primAttr, index := q.destOffset, encoding := q.encoding }
        texel (.first q.componentCount)) s₂ fun _ s' => Requests False texture lod s s' :=
    (parting_of_calm (calm_transfers.storeMask h.1)).imp fun _ _ _ ⟨hl', _⟩ =>
      (h.2.after_calms hl).of_calms hl'
  unfold emitQuery
  cases q.divisorLane with
  | none =>
    have hlod : s.builder.LodClear s.registers.IsAlternate False .implicit := fun h => h
    exact (fetch_parts ht hc hlod).bind fun _ _ _ h => hstore (Calms.refl s) h
  | some lane =>
    refine (parting_of_calm (lift_clear (Builder.projectedCoord_calm hc))).bind
      fun coord s₁ _ ⟨hl, hcoord⟩ => ?_
    have hlod : s₁.builder.LodClear s₁.registers.IsAlternate False .projective := fun h => h
    exact (fetch_parts (hl.clear _ _ ht) (show s₁.Clear .without (Coord.mk coord .f32).value from hcoord)
      hlod).bind fun _ _ _ h => hstore hl h

variable {i : Sample} {info : SamplerInfo}

/-- Second gradients are from the alternate window if there are three dimensions, and all else is from
the primary one. -/
theorem lodClear_of_detailFrom
    (h : i.DetailFrom (fun w id => s.Clear (Window.side w) id) lod) :
    s.builder.LodClear s.registers.IsAlternate
      (i.rank = 3 ∧ i.lodMode.toNat % 4 = 3) lod := by
  cases lod with
  | implicit => exact fun hf => absurd (h.symm.trans hf.2) (by decide)
  | projective => exact h.elim
  | bias level => exact ⟨fun hf => absurd (h.1.symm.trans hf.2) (by decide), h.2⟩
  | gradient dx dy =>
    obtain ⟨hm, hdx, hdy⟩ := h
    refine ⟨hdx, fun hf => ?_, fun hf => ?_⟩
    · rw [if_pos hf.1] at hdy
      exact hdy
    · rw [if_neg fun hr => hf ⟨hr, hm⟩] at hdy
      exact hdy

theorem succeeds_of_calm {ε α : Type} {a : ExceptT ε Emit α} {Q : α → Emitter → Prop}
    (h : calm.Succeeds a s Q) : parting.Succeeds a s fun v s' => Calms s s' ∧ Q v s' :=
  (parting_of_calm h).imp fun _ _ _ ⟨hl, v, ho, hv⟩ => ⟨v, ho, hl, hv⟩

theorem emitSample_parts (hi : i.takesEffect s.registers.slotsPerBank = true)
    (ht : s.Clear .without info.id) :
    parting.Succeeds (emitSample (planOf i info)) s fun _ s' => ∃ lod, i.DetailFrom (fun _ _ => True) lod ∧
      Requests (i.rank = 3 ∧ i.lodMode.toNat % 4 = 3) info.id lod s s' := by
  unfold emitSample
  refine (succeeds_of_calm (calm_transfers.loadCoord hi)).bind fun coord s₁ _ ⟨l₁, hcoord⟩ => ?_
  refine (succeeds_of_calm (calm_transfers.loadLod (by rw [l₁.sized]; exact hi))).bind
    fun lod s₂ _ ⟨l₂, hlod⟩ => ?_
  have l := l₁.trans l₂
  have hcoord₂ : s₂.Clear .without (Coord.mk coord .f32).value := l₂.clear _ _ hcoord
  refine Succeeds.lift_bind ((fetch_parts (l.clear _ _ ht) hcoord₂ (lodClear_of_detailFrom hlod)).bind
    fun texel s₃ _ ⟨htexel, h₃⟩ => ?_)
  exact (parting_of_calm (calm_transfers.storeMask htexel)).imp fun _ _ _ ⟨l₄, _⟩ =>
    ⟨lod, hlod.imp fun _ _ _ => trivial, (h₃.after_calms l).of_calms l₄⟩

end Emitter

/-! ## Contexts -/

namespace Context

variable {c c' c'' : Context} {fs : List Fetch} {p : Program}

/-- The windows are apart, and samplers and inputs are on the outside. -/
structure Parted (c : Context) : Prop where
  emitter : c.toEmitter.Parted
  samplers : ∀ index info, c.samplers.get? index = some info → c.toEmitter.Clear .without info.id
  inputs : ∀ (location : UInt32) (id : Ref), c.inputs[location]? = some id →
    c.toEmitter.Clear .without id

/-- Samplers stay, and the code is added to. -/
structure Parts (c c' : Context) : Prop where
  emitter : Emitter.Parts c.toEmitter c'.toEmitter
  samplers : c'.samplers = c.samplers

theorem Parts.refl (c : Context) : Parts c c :=
  ⟨Emitter.Parts.refl _, rfl⟩

theorem Parts.trans (h : Parts c c') (h' : Parts c' c'') : Parts c c'' :=
  ⟨h.emitter.trans h'.emitter, h'.samplers.trans h.samplers⟩

/-- The same without new samples. -/
structure Calms (c c' : Context) : Prop extends Parts c c' where
  samples : samplesOf c'.builder.body.toList = samplesOf c.builder.body.toList

theorem Calms.refl (c : Context) : Calms c c :=
  ⟨Parts.refl c, rfl⟩

theorem Calms.trans (h : Calms c c') (h' : Calms c' c'') : Calms c c'' :=
  ⟨h.toParts.trans h'.toParts, h'.samples.trans h.samples⟩

/-- Lowering that keeps the windows apart. -/
def parting : Discipline Context where
  keeps := Parted
  leads := Parts
  faults _ := True
  refl := Parts.refl
  trans := Parts.trans

/-- Lowering that keeps the windows apart and emits no sample. -/
def calm : Discipline Context where
  keeps := Parted
  leads := Calms
  faults _ := True
  refl := Calms.refl
  trans := Calms.trans

theorem parting_of_calm {α : Type} {a : Lower α} {Q : α → Context → Prop} (h : calm.Ensures a c Q) :
    parting.Ensures a c fun v c' => Calms c c' ∧ Q v c' :=
  (h.imp fun _ _ hl hQ => ⟨hl, hQ⟩).weaken (fun h => h) (fun _ _ h1 h2 _ => ⟨h1, h2.toParts⟩)
    fun _ hf => hf

/-- The body makes the requests of some fetches, in order. -/
def Requested (c : Context) (fs : List Fetch) : Prop :=
  List.Forall₂ (fun f i => i.Sampled c.toEmitter.Clear (f.isSpatial = true) ∧
    f.AskedBy c.samplers c.builder.body.toList i) fs (samplesOf c.builder.body.toList)

theorem Requested.of_calms (h : c.Requested fs) (hl : Calms c c') : c'.Requested fs := by
  unfold Requested
  rw [hl.samples, hl.samplers]
  exact h.imp fun _ _ hi => ⟨hi.1.imp hl.emitter.clear, hi.2.mono hl.emitter.code.subset⟩

/-- One more request. -/
theorem Requested.concat (h : c.Requested fs) (hl : Parts c c') {f : Fetch} {free : Prop}
    {info : SamplerInfo} {lod : FetchLod} (hf : f.isSpatial = true ↔ free)
    (hinfo : c.samplers.get? f.sampler = some info) (htakes : f.Takes lod)
    (hr : Emitter.Requests free info.id lod c.toEmitter c'.toEmitter) : c'.Requested (fs ++ [f]) := by
  obtain ⟨i, hsamples, hi, hasks⟩ := hr
  unfold Requested
  rw [hsamples, hl.samplers]
  refine List.rel_append (h.imp fun _ _ hi => ⟨hi.1.imp hl.emitter.clear,
    hi.2.mono hl.emitter.code.subset⟩) (.cons ⟨?_, info, lod, hinfo, htakes, hasks⟩ .nil)
  rw [hf]
  exact hi

theorem Parted.emitting (h : c.Parted) {s : Emitter} (hs : s.Parted)
    (hl : Emitter.Parts c.toEmitter s) : (c.emitting s).Parted :=
  ⟨hs, fun index info hi => hl.clear _ _ (h.samplers index info hi),
    fun location id hi => hl.clear _ _ (h.inputs location id hi)⟩

theorem lift_parting {α : Type} {a : Emit α} {Q : α → Emitter → Prop}
    (h : Emitter.parting.Ensures a c.toEmitter Q) :
    parting.Ensures (liftM a) c fun v c' => ∃ s, c' = c.emitting s ∧ Q v s :=
  Launch.lift_emit h (fun hk => hk.emitter) (fun _ hf => hf) fun _ hk hs hl =>
    ⟨hk.emitting hs hl, hl, rfl⟩

theorem lift_calm {α : Type} {a : Emit α} {Q : α → Emitter → Prop}
    (h : Emitter.calm.Ensures a c.toEmitter Q) :
    calm.Ensures (liftM a) c fun v c' => ∃ s, c' = c.emitting s ∧ Q v s :=
  Launch.lift_emit h (fun hk => hk.emitter) (fun _ hf => hf) fun _ hk hs hl =>
    ⟨hk.emitting hs hl.toParts, ⟨hl.toParts, rfl⟩, hl.samples⟩

/-! ## Queries -/

theorem inputAt_calm {location : UInt32} :
    calm.Ensures (inputAt location) c fun id c' => c'.toEmitter.Clear .without id := by
  unfold inputAt
  refine Ensures.assume fun hparted => Ensures.get_bind ?_
  cases hi : c.inputs[location]? with
  | some id => exact Ensures.pure _ (hparted.inputs location id hi)
  | none =>
    refine (lift_calm (Emitter.lift_calm Builder.floatVectorType_calm)).bind fun vec c₁ _ h₁ => ?_
    obtain ⟨s₁, rfl, -, -⟩ := h₁
    refine (lift_calm (Emitter.lift_calm Builder.variableOf_calm)).bind fun id c₂ _ h₂ => ?_
    obtain ⟨s₂, rfl, ⟨-, -, t, ht⟩, -⟩ := h₂
    refine (lift_calm (Emitter.lift_calm Builder.decorate_calm)).bind fun _ c₃ l₃ h₃ => ?_
    obtain ⟨s₃, rfl, -, -⟩ := h₃
    refine Ensures.of_ok (v := id)
      (t := { c.emitting s₃ with inputs := c.inputs.insert location id }) rfl fun h => ?_
    have hid : s₃.Clear .without id :=
      h.emitter.builder.clear_of_definition (l₃.emitter.table.definition ht) (by simp) (by simp) _
    refine ⟨⟨h.emitter, h.samplers, fun l id' hl => ?_⟩, ⟨⟨Emitter.Parts.refl s₃, rfl⟩, rfl⟩, hid⟩
    rw [WordMap.getElem?_insert] at hl
    split at hl
    · obtain rfl := Option.some.inj hl
      exact hid
    · exact h.inputs l id' hl

/-- A query for the same sampler and with the same divisor, whose coordinate is on the outside. -/
structure Resolves (c : Context) (q : QueryDesc) (r : Query) : Prop where
  sampler : r.sampler = q.sampler
  divisor : r.divisorLane = q.divisorLane
  coord : c.toEmitter.Clear .without r.coord.value

theorem resolveQueries_calm (queries : List QueryDesc) :
    calm.Ensures (queries.mapM resolveQuery) c fun rs c' => List.Forall₂ c'.Resolves queries rs := by
  refine Ensures.mapM (D := calm) (R := fun q r c => c.Resolves q r) queries
    (fun _ _ _ _ hl h => ⟨h.sampler, h.divisor, hl.emitter.clear _ _ h.coord⟩) fun q _ c₁ _ => ?_
  unfold resolveQuery
  exact inputAt_calm.bind fun input c₂ _ h₂ => Ensures.get_bind (Ensures.pure _ ⟨rfl, rfl, h₂⟩)

variable {image : UInt32 → Ref}

/-- Queries make their requests, one after the other. -/
theorem emitQueries_parts (hp : Launch.Tabulates p image c.samplers) {queries : List QueryDesc}
    {rs : List Query} (hrs : List.Forall₂ c.Resolves queries rs) (hr : c.Requested fs) :
    parting.Ensures (emitQueries rs) c fun _ c' =>
      c'.Requested (fs ++ queries.filterMap p.fetchOfQuery?) := by
  induction queries generalizing c rs fs with
  | nil =>
    cases hrs
    rw [List.filterMap_nil, List.append_nil]
    exact Ensures.pure _ hr
  | cons q queries ih =>
    cases hrs with
    | @cons _ r _ rs hq hrs =>
    unfold emitQueries
    refine Ensures.assume fun hparted => Ensures.get_bind ?_
    have htable := hp q.sampler
    rw [hq.sampler]
    cases hs : c.samplers.get? q.sampler with
    | none =>
      rw [hs] at htable
      have hnone : p.fetchOfQuery? q = none :=
        Option.map_eq_none_iff.2 (Option.map_eq_none_iff.1 htable.symm)
      rw [List.filterMap_cons_none hnone]
      exact ih hp hrs hr
    | some info =>
      rw [hs] at htable
      obtain ⟨d, hd, -⟩ := Option.map_eq_some_iff.1 htable.symm
      have hsome : p.fetchOfQuery? q = some (.query q d) := Option.map_eq_some_iff.2 ⟨d, hd, rfl⟩
      rw [List.filterMap_cons_some hsome, List.append_cons]
      refine (lift_parting (Emitter.emitQuery_parts (hparted.samplers _ _ hs) hq.coord)).bind
        fun _ c₁ l₁ h₁ => ?_
      obtain ⟨s₁, rfl, hrequests⟩ := h₁
      rw [hq.divisor] at hrequests
      refine (ih (c := c.emitting s₁) hp
        (hrs.imp fun _ _ h => ⟨h.sampler, h.divisor, l₁.emitter.clear _ _ h.coord⟩)
        (hr.concat (f := .query q d) l₁ (by simp [Fetch.isSpatial]) hs rfl hrequests)).bind fun _ _ _ h₂ =>
          Ensures.pure _ h₂

/-! ## Instructions -/

/-- An instruction makes a request if it passes the checks, and none otherwise. -/
theorem fetchOfSample?_of_plan {samplers : SamplerTable} (hp : Launch.Tabulates p image samplers)
    {r : RegisterFile} {i : Sample} {v : Verdict} (hv : plan samplers r i = .ok v) :
    (∃ info d, samplers.get? i.samplerNumber = some info ∧
      i.takesEffect r.slotsPerBank = true ∧ v = .passes (planOf i info) ∧
      p.fetchOfSample? r.slotsPerBank i = some (.sample i d)) ∨
    ((∀ q, v ≠ .passes q) ∧ p.fetchOfSample? r.slotsPerBank i = none) := by
  have htable := hp i.samplerNumber
  unfold Program.fetchOfSample?
  rcases plan_result hv with ⟨info, hget, heffect, rfl⟩ | ⟨hno, hcase⟩
  · rw [hget] at htable
    obtain ⟨d, hd, -⟩ := Option.map_eq_some_iff.1 htable.symm
    refine .inl ⟨info, d, hget, heffect, rfl, ?_⟩
    rw [if_pos heffect, hd]
    rfl
  · refine .inr ⟨hno, ?_⟩
    rcases hcase with hcase | hcase
    · rw [hcase] at htable
      rw [Option.map_eq_none_iff.1 htable.symm]
      split <;> rfl
    · rw [hcase]
      rfl

/-- A sample instruction makes its request, or none if it does not take effect. -/
theorem lowerSample_parts (hp : Launch.Tabulates p image c.samplers) {i : Sample}
    (hr : c.Requested fs) : parting.Ensures (lowerSample i).run c fun _ c' =>
      c'.Requested (fs ++ (p.fetchOfSample? c.registers.slotsPerBank i).toList) := by
  intro hparted
  cases hv : plan c.samplers c.registers i with
  | error f =>
    rw [lowerSample_run, hv]
    trivial
  | ok v =>
    rcases fetchOfSample?_of_plan hp hv with ⟨info, d, hget, heffect, rfl, hsome⟩ | ⟨hno, hnone⟩
    · rw [hsome]
      have hemit := Emitter.emitSample_parts heffect (hparted.samplers _ _ hget) hparted.emitter
      rw [lowerSample_of_passes hv]
      cases he : (emitSample (planOf i info)).run c.toEmitter with
      | error f => trivial
      | ok r =>
        rw [he] at hemit
        obtain ⟨hs, hl, _, -, lod, hlod, hrequests⟩ := hemit
        have hlisted : (c.listed (planOf i info).line.text).Parted :=
          ⟨hparted.emitter, hparted.samplers, hparted.inputs⟩
        have hparts : Parts c ((c.listed (planOf i info).line.text).emitting r.2) := ⟨hl, rfl⟩
        exact ⟨hlisted.emitting hs hl, hparts,
          hr.concat hparts Fetch.isSpatial_sample hget hlod hrequests⟩
    · rw [hnone, Option.toList_none, List.append_nil, lowerSample_run, hv]
      cases v with
      | fails failure => exact ⟨hparted, Parts.refl c, hr⟩
      | skips reason => exact ⟨hparted, Parts.refl c, hr⟩
      | passes plan => exact absurd rfl (hno plan)

theorem lowerWord_parts (hp : Launch.Tabulates p image c.samplers) {word : UInt64}
    (hr : c.Requested fs) : parting.Ensures (lowerWord word).run c fun _ c' =>
      c'.Requested (fs ++ (p.fetchOfWord? c.registers.slotsPerBank word).toList) := by
  unfold lowerWord Program.fetchOfWord?
  cases Sample.decode? word with
  | none =>
    rw [Option.bind_none, Option.toList_none, List.append_nil]
    exact Ensures.pure _ hr
  | some i => exact lowerSample_parts hp hr

/-- The words of a stream make their requests, one after the other. -/
theorem lowerWordsFrom_parts (hp : Launch.Tabulates p image c.samplers) (words : List UInt64)
    (position : Nat) (hr : c.Requested fs) :
    parting.Ensures (lowerWordsFrom position words) c fun r c' => r = .ok () →
      c'.Requested (fs ++ words.filterMap (p.fetchOfWord? c.registers.slotsPerBank)) := by
  induction words generalizing c position fs with
  | nil =>
    refine Ensures.pure _ fun _ => ?_
    rw [List.filterMap_nil, List.append_nil]
    exact hr
  | cons word words ih =>
    unfold lowerWordsFrom
    refine (lowerWord_parts hp hr).bind fun outcome c₁ l₁ h₁ => Ensures.get_bind ?_
    have hcons : fs ++ (word :: words).filterMap (p.fetchOfWord? c.registers.slotsPerBank) =
        fs ++ (p.fetchOfWord? c.registers.slotsPerBank word).toList ++
          words.filterMap (p.fetchOfWord? c₁.registers.slotsPerBank) := by
      rw [l₁.emitter.sized, List.append_assoc]
      cases h : p.fetchOfWord? c.registers.slotsPerBank word with
      | none => rw [List.filterMap_cons_none h]; rfl
      | some f => rw [List.filterMap_cons_some h]; rfl
    rw [hcons]
    have hnext : parting.Ensures (do
        modify fun c => { c with stats := count c.stats outcome }
        lowerWordsFrom (position + 1) words) c₁ fun r c' => r = .ok () → c'.Requested
          (fs ++ (p.fetchOfWord? c.registers.slotsPerBank word).toList ++
            words.filterMap (p.fetchOfWord? c₁.registers.slotsPerBank)) := by
      refine Ensures.bind (P := fun _ c₂ => c₂ = { c₁ with stats := count c₁.stats outcome })
        (Ensures.of_ok rfl fun h => ⟨⟨h.emitter, h.samplers, h.inputs⟩, ⟨Emitter.Parts.refl _, rfl⟩, rfl⟩)
        fun _ c₂ l₂ h₂ => ?_
      subst h₂
      exact ih (by rw [l₂.samplers, l₁.samplers]; exact hp) (position + 1) h₁
    split
    · exact Ensures.pure _ fun h => nomatch h
    · exact hnext

/-! ## Programs -/

/-- A program makes the requests of its fetches. -/
theorem lowerProgram_parts (hp : Launch.Tabulates p image c.samplers) (hr : c.Requested []) :
    parting.Ensures (lowerProgram p) c fun r c' => (∃ stats, r = .ok stats) →
      c'.Requested (p.fetches c.registers.slotsPerBank) := by
  unfold lowerProgram
  refine (parting_of_calm (resolveQueries_calm p.queries)).bind fun rs c₁ _ ⟨l₁, hrs⟩ => ?_
  refine (emitQueries_parts (by rw [l₁.samplers]; exact hp) hrs (hr.of_calms l₁)).bind
    fun fetched c₂ l₂ h₂ => ?_
  refine Ensures.bind (P := fun _ c₃ => c₃.Requested (p.queries.filterMap p.fetchOfQuery?))
    (Ensures.of_ok rfl fun h => ⟨⟨h.emitter, h.samplers, h.inputs⟩, ⟨Emitter.Parts.refl _, rfl⟩, h₂⟩)
    fun _ c₃ l₃ h₃ => ?_
  unfold lowerWords
  refine (lowerWordsFrom_parts (by rw [l₃.samplers, l₂.samplers, l₁.samplers]; exact hp)
    p.instructions 0 h₃).bind fun r c₄ _ h₄ => Ensures.get_bind ?_
  refine Ensures.pure _ fun hr => ?_
  have hr' : r = .ok () := by
    obtain ⟨stats, hr⟩ := hr
    cases r with
    | error f => cases hr
    | ok u => rfl
  have hslots := (l₁.toParts.trans (l₂.trans l₃)).emitter.sized
  unfold Program.fetches
  rw [← hslots]
  exact h₄ hr'

end Context

end TextureLift
