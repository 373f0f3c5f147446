import TextureLift.Proofs.Lowering.Transfer

/-!
# Instructions that emit nothing change nothing

A sample instruction is checked before anything is emitted, and the checks cover every load that
follows: each load reads lanes that the checks have found readable, from banks whose size does not
change. So an instruction that fails or is skipped leaves the context exactly as it was, and one that
has begun to emit code does not fail. Nothing is assumed of the context.
-/

namespace TextureLift

open Build Discipline Lowering

/-! ## Actions on any module -/

/-- No discipline: anything may happen. -/
def Discipline.free (σ : Type) : Discipline σ where
  keeps _ := True
  leads _ _ := True
  faults _ := True
  refl _ := trivial
  trans _ _ := trivial

theorem Discipline.free_ensures {σ α : Type} (a : StateT σ (Except Fault) α) (s : σ) :
    (free σ).Ensures a s fun _ _ => True := by
  intro _
  cases a s with
  | error f => trivial
  | ok r => exact ⟨trivial, trivial, trivial⟩

namespace Emitter

variable {s : Emitter} {window : UInt8}

/-- Actions that keep the size of the banks. -/
def sized : Discipline Emitter where
  keeps _ := True
  leads s t := t.registers.slotsPerBank = s.registers.slotsPerBank
  faults _ := True
  refl _ := rfl
  trans h h' := h'.trans h

/-- A sized action that succeeds, among actions of any kind. -/
theorem free_of_sized {α : Type} {a : ExceptT Failure Emit α} {Q : α → Emitter → Prop}
    (h : sized.Succeeds a s Q) : (free Emitter).Succeeds a s fun _ t =>
      t.registers.slotsPerBank = s.registers.slotsPerBank :=
  (h.imp fun _ _ hl _ => hl).weaken (fun h => h) (fun _ _ _ _ _ => ⟨trivial, trivial⟩)
    fun _ hf => hf

theorem lift_sized {α : Type} (a : Build α) : sized.Ensures (liftM a) s fun _ _ => True :=
  (Emit.lift_ensures (D := free Builder) (free_ensures a s.builder) (fun _ => trivial)
    (fun _ _ => trivial) fun _ _ _ _ _ _ => ⟨trivial, rfl⟩).imp fun _ _ _ _ => trivial

theorem slotVariable_sized (slot : Slot) :
    sized.Ensures (Emit.slotVariable slot) s fun _ _ => True := by
  unfold Emit.slotVariable
  refine Ensures.get_bind ?_
  cases s.registers.variableOf? slot with
  | some id => exact Ensures.pure _ trivial
  | none =>
    refine (lift_sized _).bind fun vec s₁ _ _ => (lift_sized _).bind fun id s₂ _ _ => ?_
    exact Ensures.of_ok (v := id) rfl fun _ => ⟨trivial, rfl, trivial⟩

theorem loadComponent_sized (bank : Bank) (component : UInt32) :
    sized.Ensures (Emit.loadComponent bank window component) s fun _ _ => True :=
  (slotVariable_sized _).bind fun _ _ _ _ => (lift_sized _).bind fun _ _ _ _ => lift_sized _

theorem storeComponent_sized {bank : Bank} {component : UInt32} {value : Ref} :
    sized.Ensures (Emit.storeComponent bank window component value) s fun _ _ => True :=
  (slotVariable_sized _).bind fun _ _ _ _ => (lift_sized _).bind fun _ _ _ _ =>
    (lift_sized _).bind fun _ _ _ _ => lift_sized _

/-- Nothing is known of values here. -/
theorem sized_transfers : Transfers sized fun _ _ _ => True where
  overflow := trivial
  sized h := h
  lasts _ h := h
  type := lift_sized _
  vector := lift_sized _
  constant _ := lift_sized _
  construct _ := lift_sized _
  unpack _ := lift_sized _
  load _ := loadComponent_sized _ _
  encode _ := lift_sized _
  pick _ := lift_sized _
  bitcast _ := lift_sized _
  bits _ := lift_sized _
  merge _ _ := lift_sized _
  store _ _ := storeComponent_sized

/-! ## Code that is called for -/

variable {i : Sample} {info : SamplerInfo}

/-- An instruction that takes effect does not fail once its code is being emitted. -/
theorem emitSample_never_fails (hi : i.takesEffect s.registers.slotsPerBank = true)
    {r : Except Failure Unit} {t : Emitter} (h : (emitSample (planOf i info)).run s = .ok (r, t)) :
    r = .ok () := by
  have hsucceeds : (free Emitter).Succeeds (emitSample (planOf i info)) s fun _ _ => True := by
    unfold emitSample
    refine (free_of_sized (sized_transfers.loadCoord hi)).bind fun coord s₁ _ h₁ => ?_
    refine (free_of_sized (sized_transfers.loadLod (by rw [h₁]; exact hi))).bind fun lod s₂ _ _ => ?_
    exact Succeeds.lift_bind (free_ensures _ _)
  obtain ⟨-, -, u, hu, -⟩ := hsucceeds.result trivial h
  exact hu

end Emitter

/-! ## Failures of the checks -/

namespace Lowering

theorem checkedSucc_eq {a b : UInt8} (h : checkedSucc a = .ok b) : b = a + 1 := by
  unfold checkedSucc at h
  split at h
  · exact (Except.ok.inj h).symm
  · cases h

/-- The operand is refused under the mask, and the failure names it. -/
def Refuses (r : RegisterFile) (op : Operand) (mask : LaneMask) (f : Failure) : Prop :=
  r.canLoad op mask = .ok false ∧ f = .ofOperand op

variable {samplers : SamplerTable} {r : RegisterFile} {s : Sample} {f : Failure}

theorem planLod_fails {p : SamplePlan} (h : planLod r s p = .ok (.fails f)) :
    Refuses r s.lodOperand (lodMask p.lodMode p.line.dimension) f := by
  have hstore : ∀ lod, planStore s p lod ≠ .fails f := fun lod hlod => by
    rcases planStore_result s p lod with ⟨hp, -⟩ | ⟨hp, -⟩ <;> rw [hp] at hlod <;> cases hlod
  unfold planLod at h
  split at h
  · exact absurd (Except.ok.inj h) (hstore _)
  · obtain ⟨b, hb, h⟩ := exists_of_bind h
    cases b with
    | true => exact absurd (Except.ok.inj h) (hstore _)
    | false =>
      cases h
      exact ⟨hb, rfl⟩

/-- Checks fail only at an operand that cannot be loaded. -/
theorem plan_fails (h : plan samplers r s = .ok (.fails f)) :
    Refuses r s.coordOperand (coordMask (s.dimension + 1)) f ∨
      Refuses r s.lodOperand (lodMask (.ofSelector s.lodMode) (s.dimension + 1)) f := by
  unfold plan at h
  dsimp only at h
  split at h
  · cases h
  · split at h
    · cases h
    · obtain ⟨dimension, hdim, h⟩ := exists_of_bind h
      obtain rfl := checkedSucc_eq hdim
      obtain ⟨b, hb, h⟩ := exists_of_bind h
      cases b with
      | false =>
        cases h
        exact .inl ⟨hb, rfl⟩
      | true =>
        rw [if_pos rfl] at h
        split at h
        · cases h
        · exact .inr (planLod_fails h)

end Lowering

/-! ## Atomicity -/

/-- A sample instruction that emits nothing leaves the context as it was. It fails only if the checks
refuse an operand, and never once its code is being emitted. -/
theorem lowerSample_atomic {c c' : Context} {s : Sample} {r : Except Failure Outcome}
    (h : (lowerSample s).run c = .ok (r, c')) :
    (r ≠ .ok .emitted → c' = c) ∧
    (∀ f, r = .error f → Refuses c.registers s.coordOperand (coordMask (s.dimension + 1)) f ∨
      Refuses c.registers s.lodOperand (lodMask (.ofSelector s.lodMode) (s.dimension + 1)) f) ∧
    ∀ p, plan c.samplers c.registers s = .ok (.passes p) →
      ∀ r' t, (emitSample p).run c.toEmitter = .ok (r', t) → r' = .ok () := by
  have hemission : ∀ p, plan c.samplers c.registers s = .ok (.passes p) →
      ∀ r' t, (emitSample p).run c.toEmitter = .ok (r', t) → r' = .ok () := by
    intro p hp r' t ht
    rcases plan_result hp with ⟨info, -, heffect, hpasses⟩ | ⟨hno, -⟩
    · cases hpasses
      exact Emitter.emitSample_never_fails heffect ht
    · exact absurd rfl (hno p)
  rw [lowerSample_run] at h
  obtain ⟨v, hv, h⟩ := exists_of_bind h
  cases v with
  | fails f =>
    obtain ⟨rfl, rfl⟩ := Prod.mk.inj (Except.ok.inj h)
    refine ⟨fun _ => rfl, fun f' hf => ?_, hemission⟩
    obtain rfl := Except.error.inj hf
    exact plan_fails hv
  | skips reason =>
    obtain ⟨rfl, rfl⟩ := Prod.mk.inj (Except.ok.inj h)
    exact ⟨fun _ => rfl, fun f hf => (nomatch hf), hemission⟩
  | passes p =>
    obtain ⟨⟨r', emitter⟩, he, h⟩ := exists_of_bind h
    obtain rfl := hemission p hv r' emitter he
    obtain ⟨rfl, rfl⟩ := Prod.mk.inj (Except.ok.inj h)
    exact ⟨fun hne => absurd rfl hne, fun f hf => (nomatch hf), hemission⟩

/-- A context with one slot in each window, and one sampler. -/
def oneSlotContext : Context where
  registers := { slotsPerBank := 1 }
  samplers := SamplerTable.insert {} 0 ⟨⟨1⟩, 4, .f32, 2⟩
  main := .none
  abortOnFailure := false

/-- The coordinate is in the only slot, but the gradients are in the next one. -/
theorem lowerSample_atomic_oneSlot :
    let s : Sample := { dimension := 1, lodMode := 3, lodIndex := 2 }
    (lowerSample s).run oneSlotContext = .ok (.error (.ofOperand s.lodOperand), oneSlotContext) ∧
      Refuses oneSlotContext.registers s.lodOperand (lodMask (.ofSelector 3) (1 + 1))
        (.ofOperand s.lodOperand) := by
  intro s
  have hfails : ((lowerSample s).run oneSlotContext).toOption.map (·.1) =
      some (.error (.ofOperand s.lodOperand)) := by decide +kernel
  cases h : (lowerSample s).run oneSlotContext with
  | error f =>
    rw [h] at hfails
    cases hfails
  | ok result =>
    obtain ⟨r, c⟩ := result
    rw [h] at hfails
    obtain rfl : r = .error (.ofOperand s.lodOperand) := Option.some.inj hfails
    obtain ⟨hsame, hrefuses, -⟩ := lowerSample_atomic h
    obtain rfl := hsame nofun
    refine ⟨rfl, ?_⟩
    rcases hrefuses _ rfl with ⟨-, hcoord⟩ | hlod
    · exact absurd hcoord (by decide)
    · exact hlod

end TextureLift
