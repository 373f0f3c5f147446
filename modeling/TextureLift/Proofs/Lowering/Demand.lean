import TextureLift.Proofs.Lowering.Store
import TextureLift.Proofs.Module.Calls

/-!
# Ids that register accesses take

The code for an operand takes a bounded number of ids, whatever module it is added to, so it runs out
of ids only near the end of the table:

    a store takes at most 149 ids        (Emit.Takes.store)
    a conversion takes at most 19        (Build.Takes.saturateTo)

`Build.Takes` counts the ids of actions on a module. `Emit.Takes` does the same for actions on registers
too, which may also end in other faults.
-/

namespace TextureLift

open Lowering

namespace Build.Takes

/-! ## Types and instructions -/

theorem vectorType (component : Ref) (count : UInt32) : Takes 1 (vectorType component count) := by
  unfold Build.vectorType
  split
  · exact (pure component).mono (Nat.zero_le 1)
  · exact intern _

theorem floatVectorType (count : UInt32) : Takes 2 (floatVectorType count) :=
  (intern _).bind fun float => vectorType float count

theorem variableOf (storage : Storage) (pointee : Ref) : Takes 2 (variableOf storage pointee) :=
  (intern _).bind fun _ => fresh _

theorem load (pointer : Ref) : Takes 1 (load pointer) :=
  (read fun _ => pure _).bind fun _ => read fun _ => emit

theorem extract (composite : Ref) (index : UInt32) : Takes 1 (extract composite index) :=
  (read fun _ => pure _).bind fun _ => read fun _ => emit

theorem insert (object composite : Ref) (index : UInt32) : Takes 1 (insert object composite index) :=
  (read fun _ => pure _).bind fun _ => emit

theorem store (pointer value : Ref) : Takes 0 (store pointer value) :=
  edit fun _ => rfl

theorem extInst (t : Ref) (op : ExtOpcode) (args : List Ref) : Takes 2 (extInst t op args) :=
  importExtSet.bind fun _ => emit

/-- Computations that do not fault. -/
theorem lift {α : Type} {y : Except Fault α} {v : α} (h : y = .ok v) :
    Takes 0 (liftM y : Build α) := by
  rw [h]
  exact pure v

/-! ## Conversions -/

theorem splat (bits count : UInt32) : Takes 5 (splat bits count) := by
  refine bind (m := 3) (constant _ bits) fun value => ?_
  split
  · exact (pure value).mono (Nat.zero_le 3)
  · exact (floatVectorType count).bind fun _ => emit

theorem saturate (value : Ref) (lo hi : UInt32) (signed : Bool) :
    Takes 19 (saturate value lo hi signed) := by
  refine read fun b => bind (m := 17) (floatVectorType _) fun float => ?_
  refine bind (m := 15) (extInst _ _ _) fun rounded => bind (m := 10) (splat lo _) fun lower => ?_
  refine bind (m := 5) (splat hi _) fun upper => bind (m := 3) (extInst _ _ _) fun clamped => ?_
  split
  · exact (intern _).bind fun _ => (vectorType _ _).bind fun _ => emit
  · exact (intern _).bind fun _ => (vectorType _ _).bind fun _ => emit

theorem saturateTo (value : Ref) {e : Encoding} (he : e.isInteger) : Takes 19 (saturateTo value e) := by
  cases e with
  | f32 | f16 | c10 => cases he
  | u8 | s8 | u16 | s16 | u32 | s32 => exact saturate _ _ _ _

theorem saturateFixed (value : Ref) : Takes 27 (saturateFixed value) :=
  read fun _ => (floatVectorType _).bind fun _ => (splat _ _).bind fun _ => emit.bind fun _ =>
    saturate _ _ _ _

section Lanes

variable {e : Encoding} {lane : UInt32} (hl : lane < e.lanesPerComponent)

include hl

theorem unpackField (raw : Ref) : Takes 9 (unpackField raw e lane) := by
  refine bind (m := 8) (intern _) fun float => ?_
  refine bind (m := 8) (lift (Environment.checkedMul_bits hl)) fun offset => ?_
  refine bind (m := 6) (constant _ _) fun offset => bind (m := 4) (constant _ _) fun count => ?_
  split
  · exact (intern _).bind fun _ => emit.bind fun _ => emit.bind fun _ => emit
  · exact (intern _).bind fun _ => emit.bind fun _ => emit.bind fun _ => emit

omit hl in
theorem unpackHalves (raw : Ref) : Takes 6 (unpackHalves raw) :=
  (intern _).bind fun _ => (intern _).bind fun _ => (vectorType _ _).bind fun _ => emit.bind fun _ =>
    extInst _ _ _

theorem unpackLane (raw : Ref) : Takes 13 (unpackLane raw e lane) := by
  refine bind (m := 12) (intern _) fun float => ?_
  cases e with
  | f32 => exact (pure raw).mono (Nat.zero_le 12)
  | f16 => exact ((unpackHalves raw).bind fun _ => extract _ _).mono (by decide)
  | u32 | s32 => exact ((intern _).bind fun _ => emit.bind fun _ => emit).mono (by decide)
  | c10 => exact (unpackField hl raw).bind fun _ => (constant _ _).bind fun _ => emit
  | u8 | s8 | u16 | s16 => exact (unpackField hl raw).mono (by decide)

theorem mergeLane (raw bits : Ref) : Takes 9 (Emit.mergeLane e raw bits lane) := by
  refine bind (m := 8) (intern _) fun uint => bind (m := 7) emit fun old => ?_
  refine bind (m := 7) (lift (Environment.checkedMul_bits hl)) fun offset => ?_
  refine bind (m := 5) (constant _ _) fun offset => bind (m := 3) (constant _ _) fun count => ?_
  exact emit.bind fun _ => (intern _).bind fun _ => emit

end Lanes

theorem encodeValue (e : Encoding) (value : Ref) : Takes 27 (Emit.encodeValue e value) := by
  refine read fun b => ?_
  split
  · rename_i h
    exact (saturateTo value (Bool.and_eq_true_iff.1 h).1).mono (by decide)
  · split
    · exact saturateFixed value
    · exact (pure value).mono (Nat.zero_le 27)

theorem laneBits (e : Encoding) (value : Ref) : Takes 8 (Emit.laneBits e value) := by
  refine bind (m := 7) (intern _) fun uint => ?_
  split
  · exact bind (m := 5) (constant _ _) fun _ => (floatVectorType _).bind fun _ => emit.bind fun _ =>
      extInst _ _ _
  · exact emit.mono (by decide)

theorem pickLane (encoded : Ref) (count lane : UInt32) :
    Takes 1 (Emit.pickLane encoded count lane) := by
  unfold Emit.pickLane
  split
  · exact extract _ _
  · exact (pure encoded).mono (Nat.zero_le 1)

end Build.Takes

/-! ## Registers -/

namespace RegisterFile

variable {r : RegisterFile} {op : Operand}

theorem fault_of_inRange {bank : Bank} {component : UInt32} {f : Fault}
    (h : r.inRange bank component = .error f) : f = .overflow := by
  by_cases hmul : r.slotsPerBank.toNat * 4 < UInt32.size
  · rw [inRange_of_lt hmul] at h
    cases h
  · rw [inRange_of_ge hmul] at h
    split at h
    · exact (Except.error.inj h).symm
    · cases h

theorem fault_of_componentOf {element : UInt32} {f : Fault} (h : componentOf op element = .error f) :
    f = .overflow := by
  by_cases hw : op.InWords element
  · rw [componentOf_of_inWords hw] at h
    cases h
  · rw [componentOf_of_not_inWords hw] at h
    exact (Except.error.inj h).symm

end RegisterFile

/-- The action takes at most `n` ids and keeps the size of the banks. It ends in a fault of `F`, or
because there are fewer ids. -/
structure Emit.Takes {α : Type} (F : Fault → Prop) (n : Nat) (a : Emit α) : Prop where
  within : ∀ {s v t}, a s = .ok (v, t) → t.builder.definitions.size ≤ s.builder.definitions.size + n
  sized : ∀ {s v t}, a s = .ok (v, t) → t.registers.slotsPerBank = s.registers.slotsPerBank
  stops : ∀ {s f}, a s = .error f →
    F f ∨ f = .idsExhausted ∧ UInt32.size ≤ s.builder.definitions.size + n

/-- A sequence stops at its first computation or after it. -/
theorem error_of_bind {ε α β : Type} {x : Except ε α} {f : α → Except ε β} {e : ε}
    (h : (x >>= f) = .error e) : x = .error e ∨ ∃ v, x = .ok v ∧ f v = .error e := by
  cases x with
  | error e' => exact .inl (congrArg Except.error (Except.error.inj h))
  | ok v => exact .inr ⟨v, rfl, h⟩

/-- The same of actions on a state. -/
theorem error_of_run_bind {σ ε α β : Type} {a : StateT σ (Except ε) α}
    {f : α → StateT σ (Except ε) β} {s : σ} {e : ε} (h : (a >>= f) s = .error e) :
    a s = .error e ∨ ∃ v t, a s = .ok (v, t) ∧ f v t = .error e := by
  rcases error_of_bind (show (a s >>= fun w => f w.1 w.2) = _ from h) with hs | ⟨⟨v, t⟩, hv, ht⟩
  · exact .inl hs
  · exact .inr ⟨v, t, hv, ht⟩

namespace Emit.Takes

variable {α β : Type} {F : Fault → Prop} {n m : Nat} {a : Emit α}

theorem pure (v : α) : Takes F 0 (Pure.pure v : Emit α) where
  within h := by
    cases h
    exact Nat.le_refl _
  sized h := by
    cases h
    rfl
  stops h := by cases h

theorem bind {f : α → Emit β} (ha : Takes F n a) (hf : ∀ v, Takes F m (f v)) :
    Takes F (n + m) (a >>= f) where
  within h := by
    obtain ⟨v, t, hv, ht⟩ := exists_of_run_bind h
    have h1 := ha.within hv
    have h2 := (hf v).within ht
    omega
  sized h := by
    obtain ⟨v, t, hv, ht⟩ := exists_of_run_bind h
    exact ((hf v).sized ht).trans (ha.sized hv)
  stops h := by
    rcases error_of_run_bind h with hs | ⟨v, t, hv, ht⟩
    · exact (ha.stops hs).imp_right fun h1 => ⟨h1.1, by omega⟩
    · have h1 := ha.within hv
      exact ((hf v).stops ht).imp_right fun h2 => ⟨h2.1, by omega⟩

theorem mono (ha : Takes F n a) (h : n ≤ m) : Takes F m a where
  within hs := Nat.le_trans (ha.within hs) (Nat.add_le_add_left h _)
  sized := ha.sized
  stops hs := (ha.stops hs).imp_right fun h1 => ⟨h1.1, by omega⟩

/-- The module and the registers may be looked at. -/
theorem read {f : Emitter → Emit α} (hf : ∀ s, Takes F n (f s)) : Takes F n (get >>= f) where
  within {s _ _} h := (hf s).within h
  sized {s _ _} h := (hf s).sized h
  stops {s _} h := (hf s).stops h

/-- What an action on the module does as one on registers too. -/
theorem run_lift {a : Build α} (s : Emitter) : (liftM a : Emit α) s =
    a s.builder >>= fun r => .ok (r.1, ⟨r.2, s.registers⟩) :=
  rfl

theorem lift {a : Build α} (ha : Build.Takes n a) : Takes F n (liftM a : Emit α) where
  within {s v t} h := by
    rw [run_lift] at h
    obtain ⟨r, hr, ht⟩ := exists_of_bind h
    obtain ⟨_, rfl⟩ := Prod.mk.inj (Except.ok.inj ht)
    have hb := ha s.builder
    rw [hr] at hb
    exact hb
  sized {s v t} h := by
    rw [run_lift] at h
    obtain ⟨r, _, ht⟩ := exists_of_bind h
    obtain ⟨_, rfl⟩ := Prod.mk.inj (Except.ok.inj ht)
    rfl
  stops {s f} h := by
    rw [run_lift] at h
    rcases error_of_bind h with hr | ⟨r, _, ht⟩
    · have hb := ha s.builder
      rw [hr] at hb
      exact .inr hb
    · cases ht

/-- Computations that look at nothing. -/
theorem except {y : Except Fault α} (h : ∀ {f}, y = .error f → F f) :
    Takes F 0 (liftM y : Emit α) where
  within hs := by
    cases y with
    | error f => cases hs
    | ok v =>
      cases hs
      exact Nat.le_refl _
  sized hs := by
    cases y with
    | error f => cases hs
    | ok v =>
      cases hs
      rfl
  stops hs := by
    cases y with
    | error f =>
      cases hs
      exact .inl (h rfl)
    | ok v => cases hs

/-- Actions that change the variables of slots. -/
theorem edit {f : Emitter → Emitter} (hb : ∀ s, (f s).builder = s.builder)
    (hr : ∀ s, (f s).registers.slotsPerBank = s.registers.slotsPerBank) :
    Takes F 0 (modify f : Emit Unit) where
  within {s v t} h := by
    obtain ⟨_, rfl⟩ := Prod.mk.inj (Except.ok.inj h)
    rw [hb]
    exact Nat.le_refl _
  sized {s v t} h := by
    obtain ⟨_, rfl⟩ := Prod.mk.inj (Except.ok.inj h)
    exact hr s
  stops h := by cases h

/-! ## Components -/

theorem slotVariable (slot : Slot) : Takes F 4 (slotVariable slot) := by
  refine read fun s => ?_
  split
  · exact (pure _).mono (Nat.zero_le 4)
  · refine bind (m := 2) (lift (.floatVectorType _)) fun vec => ?_
    refine bind (m := 0) (lift (.variableOf _ _)) fun id => bind (n := 0) (edit ?_ ?_) fun _ => pure id
    · exact fun _ => rfl
    · exact fun _ => rfl

theorem loadComponent (bank : Bank) (window : UInt8) (component : UInt32) :
    Takes F 6 (loadComponent bank window component) :=
  (slotVariable _).bind fun _ => (lift (.load _)).bind fun _ => lift (.extract _ _)

theorem storeComponent (bank : Bank) (window : UInt8) (component : UInt32) (value : Ref) :
    Takes F 6 (storeComponent bank window component value) :=
  (slotVariable _).bind fun _ => (lift (.load _)).bind fun _ => (lift (.insert _ _ _)).bind fun _ =>
    lift (.store _ _)

/-! ## Stores -/

theorem placeLane (op : Operand) (component lane : UInt32) (value : Ref) :
    Takes F 29 (Emit.placeLane op component lane value) := by
  unfold Emit.placeLane
  split
  · refine mono (n := 8) (read fun s => ?_) (by decide)
    split
    · exact (storeComponent _ _ _ _).mono (by decide)
    · exact (lift (.intern _)).bind fun _ => (lift .emit).bind fun _ => storeComponent _ _ _ _
  · exact (lift (.laneBits _ _)).bind fun _ => (loadComponent _ _ _).bind fun _ =>
      (lift (.mergeLane (UInt32.mod_lt _ Encoding.lanesPerComponent_pos) _ _)).bind fun _ =>
        storeComponent _ _ _ _

theorem storeLane (op : Operand) (encoded : Ref) (count lane : UInt32) :
    Takes (· = .overflow) 30 (storeLane op encoded count lane) := by
  rw [Emit.storeLane_eq]
  refine bind (m := 30) (except RegisterFile.fault_of_componentOf) fun component => ?_
  refine bind (m := 30) (read fun s => except RegisterFile.fault_of_inRange) fun inRange => ?_
  cases inRange with
  | false => exact (pure ()).mono (Nat.zero_le 30)
  | true => exact (lift (.pickLane _ _ _)).bind fun value => placeLane op component lane value

theorem storeLanes (op : Operand) (encoded : Ref) (count : UInt32) (lanes : List (Fin 4)) :
    Takes (· = .overflow) (30 * lanes.length)
      (lanes.forM fun lane => Emit.storeLane op encoded count (.ofNat lane.val)) := by
  induction lanes with
  | nil => exact pure ()
  | cons lane lanes ih =>
    refine mono ((storeLane op encoded count _).bind fun _ => ih) ?_
    rw [List.length_cons, Nat.mul_succ]
    omega

theorem store (op : Operand) (value : Ref) (mask : LaneMask) :
    Takes (· = .overflow) 149 (store op value mask) := by
  unfold Emit.store
  cases mask.isEmpty with
  | true => exact (pure ()).mono (Nat.zero_le 149)
  | false =>
    refine read fun s => bind (m := 122) (lift (.encodeValue _ _)) fun encoded => ?_
    refine bind (m := 121) (lift (.intern _)) fun _ => bind (m := 120) (lift (.intern _)) fun _ => ?_
    refine (storeLanes op encoded _ mask.lanes).mono ?_
    have hle := mask.length_lanes_le
    omega

end Emit.Takes

end TextureLift
