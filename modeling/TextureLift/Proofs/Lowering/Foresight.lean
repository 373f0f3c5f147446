import TextureLift.Proofs.Lowering.Demand

/-!
# Loads foreseen

`RegisterFile.canLoad` emits nothing and yet knows how a load ends. The lanes are checked in the order
in which they would be loaded, each against the same bound, so the check and the load stop at the same
lane and for the same reason:

    s.registers.canLoad op mask = .ok true  ↔  the load returns an id
    s.registers.canLoad op mask = .error f  ↔  the load ends in f

unless the load runs out of ids, of which it takes at most 79.
-/

namespace TextureLift

theorem LaneMask.isEmpty_eq (mask : LaneMask) : mask.isEmpty = mask.lanes.isEmpty := by
  obtain ⟨bits⟩ := mask
  revert bits
  decide

namespace RegisterFile

/-- The second of two checks is made if the first succeeds. -/
def andThen (x y : Except Fault Bool) : Except Fault Bool := do
  if ← x then y else return false

/-- Whether one lane can be loaded. -/
def laneInRange (r : RegisterFile) (op : Operand) (lane : Fin 4) : Except Fault Bool :=
  if op.bank = .immediate then return true
  else match (op.swizzle.channel lane).element? with
    | none => return true
    | some element => do r.inRange op.bank (← componentOf op element)

/-- Whether all of some lanes can be loaded, one lane after the other. -/
def eachInRange (r : RegisterFile) (op : Operand) : List (Fin 4) → Except Fault Bool
  | [] => .ok true
  | lane :: rest => andThen (r.laneInRange op lane) (r.eachInRange op rest)

variable {r : RegisterFile} {op : Operand}

theorem eachInRange_of_immediate (h : op.bank = .immediate) (lanes : List (Fin 4)) :
    r.eachInRange op lanes = .ok true := by
  induction lanes with
  | nil => rfl
  | cons lane rest ih =>
    unfold eachInRange laneInRange
    rw [if_pos h]
    exact ih

theorem eachInRange_of_not_immediate (h : op.bank ≠ .immediate) (lanes : List (Fin 4)) :
    r.eachInRange op lanes = r.lanesInRange op lanes := by
  induction lanes with
  | nil => rfl
  | cons lane rest ih =>
    unfold eachInRange laneInRange lanesInRange
    rw [if_neg h, ih]
    cases (op.swizzle.channel lane).element? with
    | none => rfl
    | some element =>
      dsimp only
      cases componentOf op element with
      | error f => rfl
      | ok component => rfl

theorem canLoad_eq {mask : LaneMask} : r.canLoad op mask =
    if mask.lanes.isEmpty then .ok false else r.eachInRange op mask.lanes := by
  unfold canLoad
  rw [mask.isEmpty_eq]
  congr 1
  by_cases hb : op.bank = .immediate
  · rw [if_pos hb, eachInRange_of_immediate hb]
    rfl
  · rw [if_neg hb, eachInRange_of_not_immediate hb]

/-- Only the size of the banks is looked at. -/
theorem eachInRange_congr {r' : RegisterFile} (h : r'.slotsPerBank = r.slotsPerBank)
    (lanes : List (Fin 4)) : r'.eachInRange op lanes = r.eachInRange op lanes := by
  induction lanes with
  | nil => rfl
  | cons lane rest ih =>
    unfold eachInRange laneInRange inRange componentsPerBank
    rw [ih, h]

theorem laneInRange_of_eachInRange {lanes : List (Fin 4)} (h : r.eachInRange op lanes = .ok true)
    {lane : Fin 4} (hlane : lane ∈ lanes) : r.laneInRange op lane = .ok true := by
  induction lanes with
  | nil => cases hlane
  | cons first rest ih =>
    obtain ⟨b, hb, hrest⟩ := exists_of_bind h
    cases b with
    | false => cases hrest
    | true =>
      rcases List.mem_cons.1 hlane with rfl | hlane
      · exact hb
      · exact ih hrest hlane

theorem fault_of_laneInRange {lane : Fin 4} {f : Fault} (h : r.laneInRange op lane = .error f) :
    f = .overflow := by
  unfold laneInRange at h
  by_cases hb : op.bank = .immediate
  · rw [if_pos hb] at h
    cases h
  · rw [if_neg hb] at h
    cases hc : (op.swizzle.channel lane).element? with
    | none =>
      rw [hc] at h
      cases h
    | some element =>
      rw [hc] at h
      rcases error_of_bind h with hcomponent | ⟨component, _, hrange⟩
      · exact fault_of_componentOf hcomponent
      · exact fault_of_inRange hrange

theorem fault_of_eachInRange {lanes : List (Fin 4)} {f : Fault}
    (h : r.eachInRange op lanes = .error f) : f = .overflow := by
  induction lanes with
  | nil => cases h
  | cons lane rest ih =>
    rcases error_of_bind h with hlane | ⟨b, _, hrest⟩
    · exact fault_of_laneInRange hlane
    · cases b with
      | false => cases hrest
      | true => exact ih hrest

/-- Checks stop at numbers that are no words only. -/
theorem fault_of_canLoad {mask : LaneMask} {f : Fault} (h : r.canLoad op mask = .error f) :
    f = .overflow := by
  rw [canLoad_eq] at h
  split at h
  · cases h
  · exact fault_of_eachInRange h

end RegisterFile

namespace Emit

open Build Lowering

variable {α β : Type} {n m : Nat} {x y : Except Fault Bool} {a : OptionT Emit α} {s : Emitter}

/-- The check `x` finds whether the action returns something from `s`, and what fault it ends in. The
action takes at most `n` ids and keeps the size of the banks. -/
structure Foretold (n : Nat) (x : Except Fault Bool) (a : OptionT Emit α) (s : Emitter) : Prop where
  found : ∀ {v t}, a.run s = .ok (v, t) → x = .ok v.isSome
  within : ∀ {v t}, a.run s = .ok (v, t) →
    t.builder.definitions.size ≤ s.builder.definitions.size + n
  sized : ∀ {v t}, a.run s = .ok (v, t) → t.registers.slotsPerBank = s.registers.slotsPerBank
  stops : ∀ {f}, a.run s = .error f →
    x = .error f ∨ f = .idsExhausted ∧ UInt32.size ≤ s.builder.definitions.size + n

theorem run_lift_option (a : Emit α) :
    (liftM a : OptionT Emit α).run = a >>= fun v => Pure.pure (some v) :=
  rfl

/-- A sequence of actions that may return nothing. -/
theorem run_bind_option (f : α → OptionT Emit β) :
    (a >>= f).run = a.run >>= fun o => o.elim (Pure.pure none) fun v => (f v).run :=
  OptionT.run_bind f

namespace Foretold

theorem pure (v : α) : Foretold 0 (.ok true) (Pure.pure v : OptionT Emit α) s where
  found h := by
    cases h
    rfl
  within h := by
    cases h
    exact Nat.le_refl _
  sized h := by
    cases h
    rfl
  stops h := by cases h

/-- Actions that always return something. -/
theorem lift {a : Emit α} (ha : Takes (fun _ => False) n a) :
    Foretold n (.ok true) (liftM a : OptionT Emit α) s where
  found h := by
    rw [run_lift_option] at h
    obtain ⟨v, t, _, ht⟩ := exists_of_run_bind h
    cases ht
    rfl
  within h := by
    rw [run_lift_option] at h
    obtain ⟨v, t, hv, ht⟩ := exists_of_run_bind h
    cases ht
    exact ha.within hv
  sized h := by
    rw [run_lift_option] at h
    obtain ⟨v, t, hv, ht⟩ := exists_of_run_bind h
    cases ht
    exact ha.sized hv
  stops h := by
    rw [run_lift_option] at h
    rcases error_of_run_bind h with hs | ⟨v, t, _, ht⟩
    · exact .inr ((ha.stops hs).resolve_left id)
    · cases ht

theorem mono (h : Foretold n x a s) (hn : n ≤ m) : Foretold m x a s where
  found := h.found
  within ha := Nat.le_trans (h.within ha) (Nat.add_le_add_left hn _)
  sized := h.sized
  stops ha := (h.stops ha).imp_right fun h1 => ⟨h1.1, by omega⟩

/-- A sequence goes on as long as its actions return something. -/
theorem bind {f : α → OptionT Emit β} (h : Foretold n x a s)
    (hf : ∀ v t, t.registers.slotsPerBank = s.registers.slotsPerBank → Foretold m y (f v) t) :
    Foretold (n + m) (RegisterFile.andThen x y) (a >>= f) s where
  found hs := by
    rw [run_bind_option] at hs
    obtain ⟨v, t, hv, ht⟩ := exists_of_run_bind hs
    rw [h.found hv]
    cases v with
    | none =>
      cases ht
      rfl
    | some v => exact (hf v t (h.sized hv)).found ht
  within hs := by
    rw [run_bind_option] at hs
    obtain ⟨v, t, hv, ht⟩ := exists_of_run_bind hs
    have h1 := h.within hv
    cases v with
    | none =>
      cases ht
      omega
    | some v =>
      have h2 := (hf v t (h.sized hv)).within ht
      omega
  sized hs := by
    rw [run_bind_option] at hs
    obtain ⟨v, t, hv, ht⟩ := exists_of_run_bind hs
    cases v with
    | none =>
      cases ht
      exact h.sized hv
    | some v => exact ((hf v t (h.sized hv)).sized ht).trans (h.sized hv)
  stops hs := by
    rw [run_bind_option] at hs
    rcases error_of_run_bind hs with hs | ⟨v, t, hv, ht⟩
    · refine (h.stops hs).imp (fun h1 => ?_) fun h1 => ⟨h1.1, by omega⟩
      rw [h1]
      rfl
    · have h1 := h.within hv
      rw [h.found hv]
      cases v with
      | none => cases ht
      | some v => exact ((hf v t (h.sized hv)).stops ht).imp_right fun h2 => ⟨h2.1, by omega⟩

theorem congr {b : OptionT Emit α} (h : Foretold n x b s) (hab : a.run s = b.run s) :
    Foretold n x a s := by
  refine ⟨fun ha => ?_, fun ha => ?_, fun ha => ?_, fun ha => ?_⟩
  · exact h.found (hab ▸ ha)
  · exact h.within (hab ▸ ha)
  · exact h.sized (hab ▸ ha)
  · exact h.stops (hab ▸ ha)

theorem andThen_true (h : Foretold n (RegisterFile.andThen x (.ok true)) a s) :
    Foretold n x a s := by
  have hx : RegisterFile.andThen x (.ok true) = x := by
    cases x with
    | error f => rfl
    | ok b => cases b <;> rfl
  rwa [hx] at h

/-- A computation is made by the check too. -/
theorem except {f : α → OptionT Emit β} {y : Except Fault α} {g : α → Except Fault Bool}
    (h : ∀ v, Foretold n (g v) (f v) s) : Foretold n (y >>= g) (liftM y >>= f) s := by
  cases y with
  | ok v => exact h v
  | error e =>
    refine ⟨fun ha => ?_, fun ha => ?_, fun ha => ?_, fun ha => ?_⟩
    · cases ha
    · cases ha
    · cases ha
    · exact .inl (congrArg Except.error (Except.error.inj ha))

theorem nothing : Foretold 0 (.ok false) (failure : OptionT Emit α) s := by
  refine ⟨fun ha => ?_, fun ha => ?_, fun ha => ?_, fun ha => ?_⟩
  · cases ha
    rfl
  · cases ha
    exact Nat.le_refl _
  · cases ha
    rfl
  · cases ha

theorem guard_bool (b : Bool) : Foretold 0 (.ok b) (guard (b = true) : OptionT Emit Unit) s := by
  cases b with
  | true => exact pure ()
  | false => exact nothing

/-! ## Lanes -/

theorem floatConstant (bits : UInt32) :
    Foretold 2 (.ok true) (floatConstant bits : OptionT Emit Ref) s :=
  lift (.lift (.constant _ bits))

/-- Only the check of its bounds keeps a component from being loaded. -/
theorem component (op : Operand) (window : UInt8) (element : UInt32) :
    Foretold 19 (do s.registers.inRange op.bank (← RegisterFile.componentOf op element))
      (do
        let component ← RegisterFile.componentOf op element
        guard (← Emit.inRange op.bank component)
        let raw ← loadComponent op.bank window component
        unpackLane raw op.encoding (element % op.encoding.lanesPerComponent)) s := by
  have hlane := UInt32.mod_lt element (b := op.encoding.lanesPerComponent) Encoding.lanesPerComponent_pos
  refine except fun component => ?_
  rw [← bind_pure (s.registers.inRange op.bank component)]
  refine congr (except (y := s.registers.inRange op.bank component) fun b => andThen_true ?_) rfl
  refine bind (m := 19) (guard_bool b) fun _ t _ => andThen_true ?_
  exact bind (lift (.loadComponent _ _ _)) fun raw t' _ => lift (.lift (.unpackLane hlane raw))

theorem loadLane (op : Operand) (window : UInt8) (lane : Fin 4) :
    Foretold 19 (s.registers.laneInRange op lane) (loadLane op window lane) s := by
  unfold Emit.loadLane RegisterFile.laneInRange
  dsimp only
  cases (op.swizzle.channel lane).element? with
  | none =>
    dsimp only
    rw [ite_self]
    exact mono (m := 19) (floatConstant _) (by decide)
  | some element =>
    dsimp only
    by_cases hb : op.bank = .immediate
    · rw [if_pos hb, if_pos hb]
      exact mono (m := 19) (floatConstant _) (by decide)
    · rw [if_neg hb, if_neg hb]
      exact component op window element

/-- The lanes are checked in the order in which they are loaded. -/
theorem loadLanes (op : Operand) (window : UInt8) (lanes : List (Fin 4)) (s : Emitter) :
    Foretold (19 * lanes.length) (s.registers.eachInRange op lanes)
      (lanes.mapM (Emit.loadLane op window)) s := by
  induction lanes generalizing s with
  | nil => exact pure []
  | cons lane lanes ih =>
    rw [List.mapM_cons, List.length_cons, Nat.mul_succ, Nat.add_comm]
    refine bind (loadLane op window lane) fun id t ht => ?_
    rw [← RegisterFile.eachInRange_congr ht]
    exact andThen_true (bind (m := 0) (ih t) fun ids _ _ => pure (id :: ids))

theorem loadWindow (op : Operand) (mask : LaneMask) (window : UInt8) :
    Foretold 79 (s.registers.canLoad op mask) (loadWindow op mask window) s := by
  unfold Emit.loadWindow
  have hle := mask.length_lanes_le
  rw [RegisterFile.canLoad_eq]
  revert hle
  cases mask.lanes with
  | nil =>
    intro _
    exact mono (n := 0) (congr nothing rfl) (by decide)
  | cons lane rest =>
    intro hle
    rw [List.mapM_cons]
    simp only [bind_assoc, pure_bind]
    rw [List.length_cons] at hle
    refine mono (n := 19 + (19 * rest.length + 3)) ?_ (by omega)
    refine bind (loadLane op window lane) fun id t ht => andThen_true ?_
    rw [← RegisterFile.eachInRange_congr ht]
    refine bind (loadLanes op window rest t) fun ids t' _ => ?_
    cases ids with
    | nil => exact mono (n := 0) (pure id) (by decide)
    | cons id' ids =>
      exact andThen_true (bind (lift (.lift (.floatVectorType _))) fun _ _ _ => lift (.lift .emit))

end Foretold

/-- The check of a load tells whether the load returns an id, and both stop at the same numbers that
are no words. The load may end otherwise only for want of ids, of which it takes at most 79. -/
theorem canLoad_iff_loadWindow (op : Operand) (mask : LaneMask) (window : UInt8) (s : Emitter) :
    ((s.registers.canLoad op mask = .ok true ↔
          ∃ id t, (loadWindow op mask window).run s = .ok (some id, t)) ∧
        (s.registers.canLoad op mask = .ok false ↔
          ∃ t, (loadWindow op mask window).run s = .ok (none, t)) ∧
        (s.registers.canLoad op mask = .error .overflow ↔
          (loadWindow op mask window).run s = .error .overflow) ∧
        ∀ f, (loadWindow op mask window).run s = .error f → f = .overflow) ∨
      (loadWindow op mask window).run s = .error .idsExhausted ∧
        UInt32.size ≤ s.builder.definitions.size + 79 := by
  have h := Foretold.loadWindow (s := s) op mask window
  cases hr : (loadWindow op mask window).run s with
  | error f =>
    rcases h.stops hr with hf | ⟨rfl, hsize⟩
    · obtain rfl := RegisterFile.fault_of_canLoad hf
      left
      rw [hf]
      simp
    · exact .inr ⟨rfl, hsize⟩
  | ok r =>
    obtain ⟨o, t⟩ := r
    left
    rw [h.found hr]
    cases o with
    | none => simp
    | some id => simp

end Emit

end TextureLift
