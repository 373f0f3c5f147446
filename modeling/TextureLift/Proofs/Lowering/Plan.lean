import TextureLift.Lowering.Sample
import TextureLift.Proofs.Machine.Growth
import TextureLift.Proofs.Semantics.Program

/-!
# Checks before emission

What the checks of register accesses and of sample instructions decide. `RegisterFile.canLoad` tells
whether the lanes of a mask are readable, and an instruction passes all checks exactly if its sampler
is declared and it takes effect:

    plan samplers r s = .ok verdict →
      verdict is the plan of s  or  s has no sampler or does not take effect      (plan_result)
-/

namespace TextureLift

namespace Context

/-- The context with other code. -/
def emitting (c : Context) (s : Emitter) : Context :=
  ⟨s, c.samplers, c.inputs, c.main, c.abortOnFailure, c.stats, c.listing⟩

/-- The context with a line added to its listing. -/
def listed (c : Context) (line : String) : Context :=
  { c with listing := c.listing.push line }

end Context

namespace Operand

variable {op : Operand} {element : UInt32}

/-- The index of an element is a word. -/
def InWords (op : Operand) (element : UInt32) : Prop :=
  op.index.toNat + (element / op.encoding.lanesPerComponent).toNat < UInt32.size

theorem InWords.toNat_componentAt (h : op.InWords element) :
    (op.componentAt element).toNat =
      op.index.toNat + (element / op.encoding.lanesPerComponent).toNat := by
  rw [componentAt_eq, UInt32.toNat_add]
  exact Nat.mod_eq_of_lt h

theorem hasStorage_eq {slots : UInt32} : op.hasStorage slots element =
    (op.bank.isAddressable &&
      decide (op.index.toNat + (element / op.encoding.lanesPerComponent).toNat < 4 * slots.toNat)) := by
  have hbank : [Bank.temp, .primAttr, .secAttr, .output, .fpInternal].contains op.bank =
      op.bank.isAddressable := by
    cases op.bank <;> rfl
  unfold hasStorage
  rw [hbank, Encoding.wordLanes_eq]

theorem hasStorage_iff {slots : UInt32} : op.hasStorage slots element = true ↔
    op.bank.isAddressable = true ∧
      op.index.toNat + (element / op.encoding.lanesPerComponent).toNat < 4 * slots.toNat := by
  rw [hasStorage_eq, Bool.and_eq_true, decide_eq_true_eq]

/-- Elements with storage have words as indices if banks have words as sizes. -/
theorem inWords_of_hasStorage {slots : UInt32} (h : op.hasStorage slots element = true)
    (hmul : slots.toNat * 4 < UInt32.size) : op.InWords element := by
  have h1 := (hasStorage_iff.1 h).2
  unfold InWords
  omega

end Operand

/-- The slot lies in a window of a bank that has so many slots. -/
structure Slot.Fits (slots : UInt32) (s : Slot) : Prop where
  bank : s.bank.isAddressable = true
  window : s.window = Window.primary ∨ s.window = Window.alternate
  index : s.index < slots

namespace RegisterFile

variable {r : RegisterFile} {op : Operand} {element : UInt32}

theorem componentOf_of_inWords (h : op.InWords element) :
    componentOf op element = .ok (op.componentAt element) := by
  rw [op.componentAt_eq]
  exact if_pos h

theorem componentOf_of_not_inWords (h : ¬ op.InWords element) :
    componentOf op element = .error .overflow :=
  if_neg h

theorem inRange_of_lt {bank : Bank} {component : UInt32}
    (h : r.slotsPerBank.toNat * 4 < UInt32.size) :
    r.inRange bank component =
      .ok (bank.isAddressable && decide (component.toNat < 4 * r.slotsPerBank.toNat)) := by
  unfold inRange componentsPerBank
  cases bank.isAddressable with
  | false => rfl
  | true =>
    have h4 : (r.slotsPerBank * 4).toNat = 4 * r.slotsPerBank.toNat := by
      rw [UInt32.toNat_mul, Nat.mul_comm]
      exact Nat.mod_eq_of_lt (Nat.mul_comm _ _ ▸ h)
    have hm : checkedMul r.slotsPerBank 4 = .ok (r.slotsPerBank * 4) := if_pos h
    rw [hm, ← h4, Bool.true_and]
    rfl

theorem inRange_of_ge {bank : Bank} {component : UInt32}
    (h : ¬ r.slotsPerBank.toNat * 4 < UInt32.size) :
    r.inRange bank component = if bank.isAddressable then .error .overflow else .ok false := by
  unfold inRange componentsPerBank
  have hm : checkedMul r.slotsPerBank 4 = .error .overflow := if_neg h
  rw [hm]
  rfl

/-- Components are checked against the bank, and the slots of those that pass fit. -/
theorem fits_of_inRange {bank : Bank} {window : UInt8} {component : UInt32}
    (hw : window = Window.primary ∨ window = Window.alternate)
    (h : r.inRange bank component = .ok true) :
    Slot.Fits r.slotsPerBank ⟨bank, window, component / 4⟩ := by
  by_cases hmul : r.slotsPerBank.toNat * 4 < UInt32.size
  · rw [inRange_of_lt hmul] at h
    obtain ⟨hb, hlt⟩ := Bool.and_eq_true_iff.1 (Except.ok.inj h)
    refine ⟨hb, hw, UInt32.lt_iff_toNat_lt.2 ?_⟩
    have hlt := of_decide_eq_true hlt
    show (component / 4).toNat < _
    rw [UInt32.toNat_div]
    show component.toNat / 4 < _
    omega
  · rw [inRange_of_ge hmul] at h
    split at h <;> cases h

/-- The check of an element finds whether it has storage. -/
theorem storage_of_inRange {component : UInt32} {v : Bool}
    (hc : componentOf op element = .ok component) (hv : r.inRange op.bank component = .ok v) :
    v = op.hasStorage r.slotsPerBank element := by
  by_cases hw : op.InWords element
  · rw [componentOf_of_inWords hw] at hc
    obtain rfl := Except.ok.inj hc
    by_cases hmul : r.slotsPerBank.toNat * 4 < UInt32.size
    · rw [inRange_of_lt hmul, hw.toNat_componentAt, ← Operand.hasStorage_eq] at hv
      exact (Except.ok.inj hv).symm
    · rw [inRange_of_ge hmul] at hv
      rw [Operand.hasStorage_eq]
      cases hb : op.bank.isAddressable with
      | false =>
        rw [hb] at hv
        exact (Except.ok.inj hv).symm
      | true =>
        rw [hb] at hv
        cases hv
  · rw [componentOf_of_not_inWords hw] at hc
    cases hc

/-- The check of some lanes stops early only when it has found the answer. -/
theorem lanesInRange_result {lanes : List (Fin 4)} {v : Bool}
    (h : r.lanesInRange op lanes = .ok v) :
    v = lanes.all fun lane => match (op.swizzle.channel lane).element? with
      | none => true
      | some element => op.hasStorage r.slotsPerBank element := by
  induction lanes with
  | nil => exact (Except.ok.inj h).symm
  | cons lane lanes ih =>
    rw [List.all_cons]
    unfold lanesInRange at h
    cases hc : (op.swizzle.channel lane).element? with
    | none =>
      rw [hc] at h
      exact ih h
    | some element =>
      rw [hc] at h
      dsimp only at h
      cases hcomp : componentOf op element with
      | error f =>
        rw [hcomp] at h
        cases h
      | ok component =>
        rw [hcomp] at h
        cases hin : r.inRange op.bank component with
        | error f =>
          simp only [bind, Except.bind, hin] at h
          cases h
        | ok b =>
          simp only [bind, Except.bind, hin] at h
          dsimp only
          rw [← storage_of_inRange hcomp hin]
          cases b with
          | true => exact ih h
          | false => exact (Except.ok.inj h).symm

/-- Lanes can be loaded if there are any and all can be read. -/
theorem canLoad_result {mask : LaneMask} {v : Bool} (h : r.canLoad op mask = .ok v) :
    v = (!mask.isEmpty && op.readable r.slotsPerBank mask.lanes) := by
  unfold canLoad at h
  unfold Operand.readable
  cases hm : mask.isEmpty with
  | true =>
    rw [hm] at h
    exact (Except.ok.inj h).symm
  | false =>
    rw [hm, if_neg Bool.false_ne_true] at h
    by_cases hb : op.bank = .immediate
    · rw [if_pos hb] at h
      rw [decide_eq_true hb]
      exact (Except.ok.inj h).symm
    · rw [if_neg hb] at h
      rw [decide_eq_false hb]
      exact lanesInRange_result h

end RegisterFile

namespace Lowering

open Sample

variable {samplers : SamplerTable} {r : RegisterFile} {s : Sample}

/-! ## Plans -/

/-- The plan of an instruction that passes all checks. -/
def planOf (s : Sample) (sampler : SamplerInfo) : SamplePlan where
  sampler
  lodMode := .ofSelector s.lodMode
  line := {
    predicate := .ofSelector s.predicate
    dimension := s.dimension + 1
    dest := s.destOperand sampler.encoding
    destMask := .first sampler.componentCount
    coord := s.coordOperand
    coordMask := coordMask (s.dimension + 1)
    sampler := s.samplerOperand
    lod := if LodMode.ofSelector s.lodMode = .implicit then none
      else some (s.lodOperand, lodMask (.ofSelector s.lodMode) (s.dimension + 1)) }

theorem dimension_cases (h : ¬ 2 < s.dimension) :
    s.dimension = 0 ∨ s.dimension = 1 ∨ s.dimension = 2 := by
  have h1 : s.dimension.toNat ≤ 2 := Nat.not_lt.1 h
  simp only [← UInt8.toNat_inj]
  show s.dimension.toNat = 0 ∨ s.dimension.toNat = 1 ∨ s.dimension.toNat = 2
  omega

/-- The mask of the coordinate has the lanes that are read. -/
theorem lanes_coordMask (h : ¬ 2 < s.dimension) :
    (coordMask (s.dimension + 1)).lanes = s.coordLanes ∧
      (coordMask (s.dimension + 1)).isEmpty = false := by
  unfold coordLanes rank
  rcases dimension_cases h with h | h | h <;> rw [h] <;> exact ⟨rfl, rfl⟩

/-- So has the mask of the level of detail. -/
theorem lanes_lodMask (h : ¬ 2 < s.dimension) (hr : LodMode.ofSelector s.lodMode ≠ .replace)
    (hi : LodMode.ofSelector s.lodMode ≠ .implicit) :
    (lodMask (.ofSelector s.lodMode) (s.dimension + 1)).lanes = s.detailLanes ∧
      (lodMask (.ofSelector s.lodMode) (s.dimension + 1)).isEmpty = false := by
  unfold detailLanes rank
  rcases s.lodMode_cases with ⟨hm, -⟩ | ⟨hm, -⟩ | ⟨hm, hn⟩ | ⟨hm, hn⟩
  · exact absurd hm hi
  · exact absurd hm hr
  · have hfirst : lodMask .bias (s.dimension + 1) = .first 1 := if_pos rfl
    rw [hm, hn, hfirst]
    exact ⟨rfl, rfl⟩
  · rw [hm, hn]
    rcases dimension_cases h with h | h | h <;> rw [h] <;> exact ⟨rfl, rfl⟩

/-- Nothing is read for an implicit level of detail. -/
theorem detailLanes_of_implicit (hi : LodMode.ofSelector s.lodMode = .implicit) :
    s.detailLanes = [] := by
  unfold detailLanes
  rcases s.lodMode_cases with ⟨-, hn⟩ | ⟨hm, -⟩ | ⟨hm, -⟩ | ⟨hm, -⟩
  · rw [hn]
    rfl
  all_goals
    rw [hi] at hm
    cases hm

/-- The check of the store mode. -/
theorem planStore_result (s : Sample) (p : SamplePlan) (lod : Option (Operand × LaneMask)) :
    planStore s p lod = .passes { p with line := { p.line with lod } } ∧
        storeModeSupported s.storeMode = true ∨
      planStore s p lod = .skips (.storeMode s.storeMode) ∧
        storeModeSupported s.storeMode = false := by
  unfold planStore
  cases h : storeModeSupported s.storeMode with
  | true => exact .inl ⟨rfl, rfl⟩
  | false => exact .inr ⟨rfl, rfl⟩

/-- The checks of the level of detail and the store mode. -/
theorem planLod_result {p : SamplePlan} {v : Verdict} (h : planLod r s p = .ok v)
    (hmode : p.lodMode = .ofSelector s.lodMode) (hdim : p.line.dimension = s.dimension + 1)
    (hd : ¬ 2 < s.dimension) (hrep : LodMode.ofSelector s.lodMode ≠ .replace) :
    (v = .passes { p with line := { p.line with
        lod := if LodMode.ofSelector s.lodMode = .implicit then none
          else some (s.lodOperand, lodMask (.ofSelector s.lodMode) (s.dimension + 1)) } } ∧
      s.lodOperand.readable r.slotsPerBank s.detailLanes = true ∧
      storeModeSupported s.storeMode = true) ∨
    ((∀ p, v ≠ .passes p) ∧ (s.lodOperand.readable r.slotsPerBank s.detailLanes = false ∨
      storeModeSupported s.storeMode = false)) := by
  unfold planLod at h
  rw [hmode, hdim] at h
  by_cases hi : LodMode.ofSelector s.lodMode = .implicit
  · rw [if_pos hi] at h
    obtain rfl := Except.ok.inj h
    have hread : s.lodOperand.readable r.slotsPerBank s.detailLanes = true := by
      simp [Operand.readable, detailLanes_of_implicit hi]
    rw [if_pos hi]
    rcases planStore_result s p none with ⟨hp, hs⟩ | ⟨hp, hs⟩
    · exact .inl ⟨hp, hread, hs⟩
    · exact .inr ⟨fun _ => by rw [hp]; simp, .inr hs⟩
  · rw [if_neg hi] at h
    rw [if_neg hi]
    obtain ⟨b, hb, h⟩ := exists_of_bind h
    obtain ⟨hlanes, hempty⟩ := lanes_lodMask hd hrep hi
    have hread := RegisterFile.canLoad_result hb
    rw [hlanes, hempty, Bool.not_false, Bool.true_and] at hread
    cases b with
    | false =>
      obtain rfl := Except.ok.inj h
      exact .inr ⟨fun _ => by simp, .inl hread.symm⟩
    | true =>
      obtain rfl := Except.ok.inj h
      rcases planStore_result s p (some (s.lodOperand, lodMask (.ofSelector s.lodMode)
        (s.dimension + 1))) with ⟨hp, hs⟩ | ⟨hp, hs⟩
      · exact .inl ⟨hp, hread.symm, hs⟩
      · exact .inr ⟨fun _ => by rw [hp]; simp, .inr hs⟩

/-- An instruction passes its checks exactly if it has a sampler and takes effect. -/
theorem plan_result {v : Verdict} (h : plan samplers r s = .ok v) :
    (∃ info, samplers.get? s.samplerNumber = some info ∧
      s.takesEffect r.slotsPerBank = true ∧ v = .passes (planOf s info)) ∨
    ((∀ p, v ≠ .passes p) ∧
      (samplers.get? s.samplerNumber = none ∨ s.takesEffect r.slotsPerBank = false)) := by
  unfold plan at h
  dsimp only at h
  unfold Sample.takesEffect
  rw [s.samplerNumber_eq, s.coordSource_eq, s.lodSource_eq]
  by_cases hrep : LodMode.ofSelector s.lodMode = .replace
  · rw [if_pos hrep] at h
    obtain rfl := Except.ok.inj h
    exact .inr ⟨fun _ => by simp, .inr (by simp [replace_iff.1 hrep])⟩
  rw [if_neg hrep] at h
  cases hs : samplers.get? s.samplerOperand.index with
  | none =>
    rw [hs] at h
    obtain rfl := Except.ok.inj h
    exact .inr ⟨fun _ => by simp, .inl rfl⟩
  | some info =>
    rw [hs] at h
    dsimp only at h
    obtain ⟨dimension, hdim, h⟩ := exists_of_bind h
    have hdim' : dimension = s.dimension + 1 := by
      unfold checkedSucc at hdim
      split at hdim
      · exact (Except.ok.inj hdim).symm
      · cases hdim
    subst hdim'
    obtain ⟨b, hb, h⟩ := exists_of_bind h
    by_cases hd : 2 < s.dimension
    · -- such instructions are skipped or fail, but never pass
      have hrank : decide (s.rank ≤ 3) = false := by
        have h2 : 2 < s.dimension.toNat := hd
        unfold Sample.rank
        exact decide_eq_false (by omega)
      refine .inr ⟨?_, .inr (by rw [hrank]; rfl)⟩
      cases b with
      | true =>
        rw [if_pos rfl, if_pos hd] at h
        obtain rfl := Except.ok.inj h
        simp
      | false =>
        obtain rfl := Except.ok.inj h
        simp
    · obtain ⟨hlanes, hempty⟩ := lanes_coordMask hd
      have hread := RegisterFile.canLoad_result hb
      rw [hlanes, hempty, Bool.not_false, Bool.true_and] at hread
      cases b with
      | false =>
        obtain rfl := Except.ok.inj h
        exact .inr ⟨by simp, .inr (by simp [← hread])⟩
      | true =>
        rw [if_pos rfl, if_neg hd] at h
        have hrank : decide (s.rank ≤ 3) = true := by
          have h2 : s.dimension.toNat ≤ 2 := Nat.not_lt.1 hd
          unfold Sample.rank
          exact decide_eq_true (by omega)
        have hmode : (s.lodMode.toNat % 4 != 1) = true := bne_iff_ne.2 (hrep ∘ replace_iff.2)
        rw [hrank, hmode, ← hread, Bool.true_and, Bool.and_true, Bool.and_true]
        rcases planLod_result h rfl rfl hd hrep with ⟨hv, hlod, hstore⟩ | ⟨hv, hno⟩
        · exact .inl ⟨info, rfl, by rw [hlod, Bool.and_true]; exact hstore, hv⟩
        · refine .inr ⟨hv, .inr ?_⟩
          rcases hno with hno | hno
          · rw [hno, Bool.and_false]
          · have hno' : (s.storeMode == 0 || s.storeMode == 1 || s.storeMode == 3) = false := hno
            rw [hno', Bool.false_and]

/-! ## Lowering by plan -/

/-- Emitting code adds a line to the listing and reports how it ended. -/
theorem run_listed (line : String) (a : ExceptT Failure Emit Unit) (c : Context) :
    (do
      modify fun c : Context => { c with listing := c.listing.push line }
      match ← a.run with
      | .ok () => return .emitted
      | .error failure => throw failure : ExceptT Failure Lower Outcome).run c =
    a.run c.toEmitter >>= fun (r, emitter) =>
      .ok (r.map fun () => .emitted, (c.listed line).emitting emitter) := by
  show ((((a.run c.toEmitter >>= _) >>= _) >>= _) : Except Fault _) = _
  cases a.run c.toEmitter with
  | error f => rfl
  | ok r =>
    obtain ⟨r, emitter⟩ := r
    cases r with
    | error failure => rfl
    | ok u => rfl

/-- What follows a check depends on its verdict. -/
theorem run_verdict (check : Context → Except Fault Verdict)
    (emission : SamplePlan → ExceptT Failure Lower Outcome) (c : Context) :
    (do
      match ← check (← get) with
      | .fails failure => throw failure
      | .skips reason => return .skipped reason
      | .passes p => emission p : ExceptT Failure Lower Outcome).run c =
    check c >>= fun
      | .fails failure => .ok (.error failure, c)
      | .skips reason => .ok (.ok (.skipped reason), c)
      | .passes p => (emission p).run c := by
  show (liftM (check c) >>= _ : ExceptT Failure Lower Outcome).run c = _
  cases check c with
  | error f => rfl
  | ok v => cases v <;> rfl

/-- Lowering an instruction is carrying out its plan; without a plan the context stays as it is. -/
theorem lowerSample_run (s : Sample) (c : Context) :
    (lowerSample s).run c = plan c.samplers c.registers s >>= fun
      | .fails failure => .ok (.error failure, c)
      | .skips reason => .ok (.ok (.skipped reason), c)
      | .passes p => (emitSample p).run c.toEmitter >>= fun (r, emitter) =>
        .ok (r.map fun () => .emitted, (c.listed p.line.text).emitting emitter) := by
  refine (run_verdict (fun c => plan c.samplers c.registers s) _ c).trans ?_
  refine bind_congr fun v => ?_
  cases v with
  | fails failure => rfl
  | skips reason => rfl
  | passes p => exact run_listed p.line.text (emitSample p) c

theorem lowerSample_of_passes {s : Sample} {c : Context} {p : SamplePlan}
    (h : plan c.samplers c.registers s = .ok (.passes p)) :
    (lowerSample s).run c = (emitSample p).run c.toEmitter >>= fun (r, emitter) =>
      .ok (r.map fun () => .emitted, (c.listed p.line.text).emitting emitter) := by
  rw [lowerSample_run, h]
  rfl

end Lowering

end TextureLift
