import TextureLift.Proofs.Lowering.Sample

/-!
# Operands under any discipline

Loads and stores of operands are put together from loads and stores of single components and from
computations. What holds of these holds of the whole, whatever it is: `Transfers D P` lists what a
discipline has to say of the parts, where `P w` is what is known of values that come from window `w`.
Loads that were checked beforehand do not come to nothing, since no part changes the size of the banks.
-/

namespace TextureLift

open Build Discipline Lowering Number

/-- What is known of the ids of an instruction's level of detail, by the windows that they come
from. -/
def Sample.DetailFrom (i : Sample) (P : UInt8 → Ref → Prop) : FetchLod → Prop
  | .implicit => i.lodMode.toNat % 4 = 0
  | .projective => False
  | .bias level => i.lodMode.toNat % 4 = 2 ∧ P Window.primary level
  | .gradient dx dy => i.lodMode.toNat % 4 = 3 ∧ P Window.primary dx ∧
      P (if i.rank = 3 then Window.alternate else Window.primary) dy

theorem Sample.DetailFrom.imp {i : Sample} {P P' : UInt8 → Ref → Prop} {lod : FetchLod}
    (h : i.DetailFrom P lod) (hP : ∀ w id, P w id → P' w id) : i.DetailFrom P' lod := by
  cases lod with
  | implicit => exact h
  | projective => exact h
  | bias level => exact ⟨h.1, hP _ _ h.2⟩
  | gradient dx dy => exact ⟨h.1, hP _ _ h.2.1, hP _ _ h.2.2⟩

namespace Emitter

/-- Components can be loaded and stored under a discipline, and computed with. -/
structure Transfers (D : Discipline Emitter) (P : UInt8 → Ref → Emitter → Prop) : Prop where
  overflow : D.faults .overflow
  sized : ∀ {s t}, D.leads s t → t.registers.slotsPerBank = s.registers.slotsPerBank
  lasts : ∀ {w id s t}, D.leads s t → P w id s → P w id t
  type : ∀ {s decl}, D.Ensures (liftM (Build.type decl)) s fun _ _ => True
  vector : ∀ {s n}, D.Ensures (liftM (floatVectorType n)) s fun _ _ => True
  constant : ∀ {s bits} w, D.Ensures (liftM (floatConstant bits)) s (P w)
  construct : ∀ {w s t ids}, (∀ id ∈ ids, P w id s) →
    D.Ensures (liftM (Build.construct t ids)) s (P w)
  unpack : ∀ {w s raw e lane}, P w raw s → D.Ensures (liftM (unpackLane raw e lane)) s (P w)
  load : ∀ {w s bank component}, Slot.Fits s.registers.slotsPerBank ⟨bank, w, component / 4⟩ →
    D.Ensures (Emit.loadComponent bank w component) s (P w)
  encode : ∀ {w s e value}, P w value s → D.Ensures (liftM (Emit.encodeValue e value)) s (P w)
  pick : ∀ {w s encoded count lane}, P w encoded s →
    D.Ensures (liftM (Emit.pickLane encoded count lane)) s (P w)
  bitcast : ∀ {w s t value}, P w value s → D.Ensures (liftM (Build.bitcast t value)) s (P w)
  bits : ∀ {w s e value}, P w value s → D.Ensures (liftM (Emit.laneBits e value)) s (P w)
  merge : ∀ {w s e raw bits lane}, P w raw s → P w bits s →
    D.Ensures (liftM (Emit.mergeLane e raw bits lane)) s (P w)
  store : ∀ {s bank component value},
    Slot.Fits s.registers.slotsPerBank ⟨bank, Window.primary, component / 4⟩ → P Window.primary value s →
    D.Ensures (Emit.storeComponent bank Window.primary component value) s fun _ _ => True

namespace Transfers

variable {D : Discipline Emitter} {P : UInt8 → Ref → Emitter → Prop} {s : Emitter} {op : Operand}
  {window : UInt8}

/-! ## Loads -/

theorem loadLane (h : Transfers D P) (hw : window = Window.primary ∨ window = Window.alternate)
    {lane : Fin 4} (hr : op.readable s.registers.slotsPerBank [lane] = true) :
    D.Yields (Emit.loadLane op window lane) s (P window) := by
  unfold Emit.loadLane
  dsimp only
  unfold Operand.readable at hr
  simp only [List.all_cons, List.all_nil, Bool.and_true, Bool.or_eq_true, decide_eq_true_eq] at hr
  cases hc : (op.swizzle.channel lane).element? with
  | none => exact Yields.lift (h.constant window)
  | some element =>
    rw [hc] at hr
    by_cases hb : op.bank = .immediate
    · simp only [if_pos hb]
      exact Yields.lift (h.constant window)
    · simp only [if_neg hb]
      have hs : op.hasStorage s.registers.slotsPerBank element = true := hr.resolve_left hb
      refine Yields.bind (Yields.lift (Emit.componentOf_ensures (.inl h.overflow)))
        fun component s₁ _ h₁ => ?_
      obtain ⟨rfl, hc, -⟩ := h₁
      refine Yields.bind (Yields.lift (Emit.inRange_ensures (.inl h.overflow)))
        fun inRange s₁ _ h₁ => ?_
      obtain ⟨rfl, hin⟩ := h₁
      -- the guard of the load is the check that was made before
      obtain rfl : inRange = true := (RegisterFile.storage_of_inRange hc hin).trans hs
      refine Yields.bind (Yields.pure (Q := fun _ t => t = s₁) () rfl) fun _ t _ ht => ?_
      obtain rfl := ht
      exact Yields.bind (Yields.lift (h.load (RegisterFile.fits_of_inRange hw hin))) fun _ _ _ hraw =>
        Yields.lift (h.unpack hraw)

theorem loadWindow (h : Transfers D P) (hw : window = Window.primary ∨ window = Window.alternate)
    {mask : LaneMask} (hne : mask.lanes ≠ [])
    (hr : op.readable s.registers.slotsPerBank mask.lanes = true) :
    D.Yields (Emit.loadWindow op mask window) s (P window) := by
  unfold Emit.loadWindow
  refine Yields.bind (Yields.mapM (R := fun _ => P window) mask.lanes
    (fun _ _ _ _ hl hid => h.lasts hl hid) fun lane hlane t hl => h.loadLane hw ?_) fun ids s₁ _ hids => ?_
  · rw [h.sized hl]
    exact Operand.readable_of_mem hr hlane
  · have hclear := forall_of_forall₂ hids
    match ids with
    | [] => exact absurd (List.length_eq_zero_iff.1 hids.length_eq) hne
    | [id] => exact Yields.pure _ (hclear id (List.mem_singleton_self id))
    | id :: id' :: ids =>
      exact Yields.bind (Yields.lift h.vector) fun _ _ l₂ _ =>
        Yields.lift (h.construct fun id hid => h.lasts l₂ (hclear id hid))

theorem loadOrFail (h : Transfers D P) (hw : window = Window.primary ∨ window = Window.alternate)
    {mask : LaneMask} (hne : mask.lanes ≠ [])
    (hr : op.readable s.registers.slotsPerBank mask.lanes = true) :
    D.Succeeds (Lowering.loadOrFail op mask window) s (P window) := by
  unfold Lowering.loadOrFail
  refine (Succeeds.lift (h.loadWindow hw hne hr)).bind fun o s₁ _ ho => ?_
  obtain ⟨id, rfl, hid⟩ := ho
  exact Succeeds.pure id hid

/-- Two loads, one after the other. -/
theorem loadPair (h : Transfers D P) {mask mask' : LaneMask} {window' : UInt8}
    (hw : window = Window.primary ∨ window = Window.alternate)
    (hw' : window' = Window.primary ∨ window' = Window.alternate) (hne : mask.lanes ≠ [])
    (hr : op.readable s.registers.slotsPerBank mask.lanes = true) (hne' : mask'.lanes ≠ [])
    (hr' : op.readable s.registers.slotsPerBank mask'.lanes = true) :
    D.Succeeds (do
      let dx ← (Emit.loadWindow op mask window).run
      let dy ← (Emit.loadWindow op mask' window').run
      match dx, dy with
      | some dx, some dy => return .gradient dx dy
      | _, _ => throw (.ofOperand op) : ExceptT Failure Emit FetchLod) s fun lod t =>
        ∃ dx dy, lod = .gradient dx dy ∧ P window dx t ∧ P window' dy t := by
  refine (Succeeds.lift (h.loadWindow hw hne hr)).bind fun o s₁ l₁ h₁ => ?_
  obtain ⟨dx, rfl, hdx⟩ := h₁
  refine (Succeeds.lift (h.loadWindow hw' hne' (by rw [h.sized l₁]; exact hr'))).bind
    fun o s₂ l₂ h₂ => ?_
  obtain ⟨dy, rfl, hdy⟩ := h₂
  exact Succeeds.pure _ ⟨dx, dy, rfl, h.lasts l₂ hdx, hdy⟩

variable {i : Sample} {info : SamplerInfo}

theorem loadCoord (h : Transfers D P) (hi : i.takesEffect s.registers.slotsPerBank = true) :
    D.Succeeds (Lowering.loadCoord (planOf i info).line) s (P Window.primary) := by
  obtain ⟨hd, -, hread, -⟩ := Launch.of_takesEffect hi
  obtain ⟨hlanes, -⟩ := lanes_coordMask hd
  have hne : i.coordLanes ≠ [] := by
    unfold Sample.coordLanes Sample.rank
    simp
  rw [← hlanes] at hread hne
  unfold Lowering.loadCoord
  refine (h.loadOrFail (.inl rfl) hne hread).bind fun coord s₁ _ hcoord => ?_
  split
  · refine (Succeeds.lift h.vector).bind fun _ s₂ l₂ _ =>
      (Succeeds.lift (h.constant Window.primary)).bind fun zero s₃ l₃ hzero => ?_
    exact Succeeds.lift (h.construct (by simpa using ⟨h.lasts (D.trans l₂ l₃) hcoord, hzero⟩))
  · exact Succeeds.pure coord hcoord

theorem loadLod (h : Transfers D P) (hi : i.takesEffect s.registers.slotsPerBank = true) :
    D.Succeeds (Lowering.loadLod (planOf i info).lodMode (planOf i info).line) s fun lod t =>
      i.DetailFrom (fun w id => P w id t) lod := by
  obtain ⟨hd, hrep, -, hread⟩ := Launch.of_takesEffect hi
  have hmode : (planOf i info).lodMode = .ofSelector i.lodMode := rfl
  have hlod : (planOf i info).line.lod = if LodMode.ofSelector i.lodMode = .implicit then none
      else some (i.lodOperand, lodMask (.ofSelector i.lodMode) (i.dimension + 1)) := rfl
  unfold Sample.detailLanes at hread
  unfold Lowering.loadLod Sample.DetailFrom
  rw [hmode, hlod]
  rcases i.lodMode_cases with ⟨hm, hn⟩ | ⟨hm, -⟩ | ⟨hm, hn⟩ | ⟨hm, hn⟩ <;> rw [hm]
  · exact Succeeds.pure _ hn
  · exact absurd hm hrep
  · rw [hn] at hread
    exact (h.loadOrFail (.inl rfl) (by decide) hread).bind fun _ _ _ hlevel => Succeeds.pure _ ⟨hn, hlevel⟩
  · rw [hn, if_neg (by decide), if_pos rfl] at hread
    show D.Succeeds (loadGradients i.lodOperand (i.dimension + 1)) s _
    unfold loadGradients
    -- the lanes of both gradients are among those that were checked
    by_cases h3 : i.rank = 3
    · rw [if_pos h3] at hread
      simp only [if_pos h3, if_pos ((Launch.rank_eq_three hd).1 h3)]
      refine (h.loadPair (.inl rfl) (.inr rfl) (by decide) hread (by decide) hread).imp fun lod t _ hpair => ?_
      obtain ⟨dx, dy, rfl, hdx, hdy⟩ := hpair
      exact ⟨hn, hdx, hdy⟩
    · rw [if_neg h3] at hread
      simp only [if_neg h3, if_neg (mt (Launch.rank_eq_three hd).2 h3)]
      refine (h.loadPair (.inl rfl) (.inl rfl) (by decide)
        (Launch.readable_of_subset hread (by decide)) (by decide) (Launch.readable_of_subset hread (by decide))).imp fun lod t _ hpair => ?_
      obtain ⟨dx, dy, rfl, hdx, hdy⟩ := hpair
      exact ⟨hn, hdx, hdy⟩

/-! ## Stores -/

theorem placeLane (h : Transfers D P) {component lane : UInt32} {value : Ref}
    (hfits : Slot.Fits s.registers.slotsPerBank ⟨op.bank, Window.primary, component / 4⟩)
    (hv : P Window.primary value s) :
    D.Ensures (Emit.placeLane op component lane value) s fun _ _ => True := by
  have hlasts {t : Emitter} (hl : D.leads s t) :
      Slot.Fits t.registers.slotsPerBank ⟨op.bank, Window.primary, component / 4⟩ := by
    rw [h.sized hl]
    exact hfits
  unfold Emit.placeLane
  split
  · refine Ensures.get_bind ?_
    split
    · exact h.store hfits hv
    · exact h.type.bind fun _ _ l₁ _ => (h.bitcast (h.lasts l₁ hv)).bind fun _ _ l₂ hfloat =>
        h.store (hlasts (D.trans l₁ l₂)) hfloat
  · refine (h.bits hv).bind fun _ _ l₁ hbits => (h.load (hlasts l₁)).bind fun _ _ l₂ hraw => ?_
    exact (h.merge hraw (h.lasts l₂ hbits)).bind fun _ _ l₃ hmerged =>
      h.store (hlasts (D.trans (D.trans l₁ l₂) l₃)) hmerged

theorem storeLane (h : Transfers D P) {encoded : Ref} {count lane : UInt32}
    (hv : P Window.primary encoded s) :
    D.Ensures (Emit.storeLane op encoded count lane) s fun _ _ => True := by
  rw [Emit.storeLane_eq]
  refine (Emit.componentOf_ensures (.inl h.overflow)).bind fun component s₁ _ h₁ => ?_
  obtain ⟨rfl, -, -⟩ := h₁
  refine (Emit.inRange_ensures (.inl h.overflow)).bind fun inRange s₂ _ h₂ => ?_
  obtain ⟨rfl, hin⟩ := h₂
  cases inRange with
  | false => exact Ensures.pure _ trivial
  | true =>
    refine (h.pick hv).bind fun _ _ hl hvalue => h.placeLane ?_ hvalue
    rw [h.sized hl]
    exact RegisterFile.fits_of_inRange (.inl rfl) hin

theorem storeLanes (h : Transfers D P) {encoded : Ref} {count : UInt32} (lanes : List (Fin 4))
    (hv : P Window.primary encoded s) :
    D.Ensures (lanes.forM fun lane => Emit.storeLane op encoded count (.ofNat lane.val)) s
      fun _ _ => True := by
  induction lanes generalizing s with
  | nil => exact Ensures.pure _ trivial
  | cons lane lanes ih => exact (h.storeLane hv).bind fun _ _ l₁ _ => ih (h.lasts l₁ hv)

theorem storeMask (h : Transfers D P) {value : Ref} {mask : LaneMask} (hv : P Window.primary value s) :
    D.Ensures (Emit.store op value mask) s fun _ _ => True := by
  unfold Emit.store
  cases mask.isEmpty with
  | true => exact Ensures.pure _ trivial
  | false =>
    refine Ensures.get_bind ((h.encode hv).bind fun encoded _ _ hencoded => ?_)
    refine h.type.bind fun _ _ l₂ _ => h.type.bind fun _ _ l₃ _ => ?_
    exact h.storeLanes _ (h.lasts (D.trans l₂ l₃) hencoded)

end Transfers

end Emitter

end TextureLift
