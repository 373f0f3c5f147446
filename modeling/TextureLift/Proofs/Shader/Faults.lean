import Mathlib.Algebra.Group.Nat.Defs
import TextureLift.Proofs.Instruction.Word
import TextureLift.Proofs.Lowering.Stream
import TextureLift.Proofs.Shader.Cache

/-!
# Where lifting ends in a fault

An acceptable program ends in a fault in one way only, ids aside: a query of a declared sampler has
components to write whose indices are no words.

    lift ends in a fault  ↔  p.Overruns q  for some query q of p

From left to right, every check and every action of the lowering is known not to fault otherwise
(`plan_total`, `lowerProgram_ensures`). From right to left, a store that goes through has computed the
index of every component it may write, so that a lowering that goes through has no such query.
-/

namespace TextureLift

open Build Builder Discipline Lowering

/-! ## Checks of instruction words -/

theorem Sample.bounds_of_decode? {word : UInt64} {i : Sample} (h : Sample.decode? word = some i) :
    i.dimension.toNat < 4 ∧ i.coordIndex.toNat < 128 ∧ i.lodIndex.toNat < 128 ∧ i.lodMode.toNat < 4 := by
  unfold Sample.decode? at h
  split at h
  · obtain rfl := Option.some.inj h
    exact ⟨Field.get_lt .., Field.get_lt .., Field.get_lt .., Field.get_lt ..⟩
  · cases h

/-- An index field counts pairs of components at most. -/
theorem Operand.toNat_index_ofField (bank : Bank) (index : UInt8) (extended paired : Bool) :
    (Operand.ofField bank index extended paired).index.toNat ≤ 2 * index.toNat := by
  have hindex : index.toUInt32.toNat = index.toNat := UInt8.toNat_toUInt32 index
  have hpair : (bank.pairIndex index.toUInt32).toNat ≤ 2 * index.toNat := by
    have hshift : (index.toUInt32 <<< 1).toNat ≤ 2 * index.toNat := by
      rw [UInt32.toNat_shiftLeft, hindex]
      refine Nat.le_trans (Nat.mod_le ..) ?_
      rw [Nat.shiftLeft_eq, Nat.mul_comm]
      exact Nat.le_refl _
    unfold Bank.pairIndex
    split
    · omega
    · omega
    · exact hshift
  unfold Operand.ofField
  dsimp only
  split
  · exact hpair
  · omega

namespace RegisterFile

variable {r : RegisterFile} {op : Operand}

theorem lanesInRange_total (hmul : r.slotsPerBank.toNat * 4 < UInt32.size)
    (hindex : op.index.toNat + 3 < UInt32.size) (lanes : List (Fin 4)) :
    ∃ v, r.lanesInRange op lanes = .ok v := by
  induction lanes with
  | nil => exact ⟨true, rfl⟩
  | cons lane lanes ih =>
    unfold lanesInRange
    cases hc : (op.swizzle.channel lane).element? with
    | none => exact ih
    | some element =>
      have hthree : element.toNat ≤ 3 := by
        cases hchannel : op.swizzle.channel lane <;> rw [hchannel] at hc <;> cases hc <;> decide
      have hwords : op.InWords element := by
        have hdiv : (element / op.encoding.lanesPerComponent).toNat ≤ element.toNat := by
          rw [UInt32.toNat_div]
          exact Nat.div_le_self ..
        unfold Operand.InWords
        omega
      simp only [componentOf_of_inWords hwords, inRange_of_lt hmul, bind, Except.bind]
      split
      · exact ih
      · exact ⟨false, rfl⟩

/-- The check of an operand near the start of its bank does not fault. -/
theorem canLoad_total (op : Operand) (mask : LaneMask)
    (hmul : r.slotsPerBank.toNat * 4 < UInt32.size) (hindex : op.index.toNat + 3 < UInt32.size) :
    ∃ v, r.canLoad op mask = .ok v := by
  unfold canLoad
  split
  · exact ⟨false, rfl⟩
  · split
    · exact ⟨true, rfl⟩
    · exact lanesInRange_total hmul hindex _

end RegisterFile

namespace Lowering

variable {r : RegisterFile} {i : Sample} {word : UInt64}

/-- The checks of an instruction word do not fault. -/
theorem plan_total (hmul : r.slotsPerBank.toNat * 4 < UInt32.size)
    (hword : Sample.decode? word = some i) (samplers : SamplerTable) :
    ∃ v, plan samplers r i = .ok v := by
  obtain ⟨hdimension, hcoord, hlod, -⟩ := Sample.bounds_of_decode? hword
  have hindex {index : UInt8} (bank : Bank) (extended : Bool) (h : index.toNat < 128) :
      (Operand.ofField bank index extended true).index.toNat + 3 < UInt32.size := by
    have hle := Operand.toNat_index_ofField bank index extended true
    show _ < 4294967296
    omega
  obtain ⟨coord, hcoord⟩ := RegisterFile.canLoad_total i.coordOperand (coordMask (i.dimension + 1))
    hmul (hindex _ i.coordExtended hcoord)
  have hplanLod (p : SamplePlan) : ∃ v, planLod r i p = .ok v := by
    obtain ⟨lod, hlod⟩ := RegisterFile.canLoad_total i.lodOperand
      (lodMask p.lodMode p.line.dimension) hmul (hindex _ i.lodExtended hlod)
    unfold planLod
    split
    · exact ⟨_, rfl⟩
    · simp only [hlod, bind, Except.bind]
      cases lod <;> exact ⟨_, rfl⟩
  have hsucc : checkedSucc i.dimension = .ok (i.dimension + 1) := by
    refine if_pos ?_
    show _ < 256
    omega
  unfold plan
  dsimp only
  split
  · exact ⟨_, rfl⟩
  · cases samplers.get? i.samplerOperand.index with
    | none => exact ⟨_, rfl⟩
    | some sampler =>
      simp only [hsucc, hcoord, bind, Except.bind]
      cases coord with
      | false => exact ⟨_, rfl⟩
      | true =>
        rw [if_pos rfl]
        split
        · exact ⟨_, rfl⟩
        · exact hplanLod _

theorem plansWithin_of_lt {F : Fault → Prop} {slots : UInt32} (hmul : slots.toNat * 4 < UInt32.size)
    (samplers : SamplerTable) (words : List UInt64) : Launch.PlansWithin F samplers slots words := by
  intro word _ i hword r hr f hf
  obtain ⟨v, hv⟩ := plan_total (r := r) (by rw [hr]; exact hmul) hword samplers
  rw [hv] at hf
  cases hf

end Lowering

/-! ## Stores that go through -/

namespace Emit

variable {op : Operand} {s : Emitter}

/-- A store computes the index of its component before anything else. -/
theorem storeLane_inWords {encoded : Ref} {count lane : UInt32} {r : Unit × Emitter}
    (h : storeLane op encoded count lane s = .ok r) : op.InWords lane := by
  by_contra hwords
  obtain ⟨component, s₁, hcomponent, -⟩ := exists_of_run_bind h
  obtain ⟨v, hv, -⟩ := exists_of_bind hcomponent
  rw [RegisterFile.componentOf_of_not_inWords hwords] at hv
  cases hv

theorem storeLanes_inWords {encoded : Ref} {count : UInt32} (lanes : List (Fin 4)) {r : Unit × Emitter}
    (h : lanes.forM (fun lane => storeLane op encoded count (.ofNat lane.val)) s = .ok r) :
    ∀ lane ∈ lanes, op.InWords (.ofNat lane.val) := by
  induction lanes generalizing s with
  | nil => simp
  | cons lane lanes ih =>
    obtain ⟨_, s₁, hlane, hlanes⟩ := exists_of_run_bind h
    exact List.forall_mem_cons.2 ⟨storeLane_inWords hlane, ih hlanes⟩

theorem store_inWords {value : Ref} {mask : LaneMask} {r : Unit × Emitter}
    (h : store op value mask s = .ok r) : ∀ lane ∈ mask.lanes, op.InWords (.ofNat lane.val) := by
  unfold store at h
  cases hm : mask.isEmpty with
  | true =>
    rw [LaneMask.lanes_of_isEmpty hm]
    simp
  | false =>
    rw [hm] at h
    obtain ⟨s₁, s₁, -, h⟩ := exists_of_run_bind h
    obtain ⟨encoded, s₂, -, h⟩ := exists_of_run_bind h
    obtain ⟨_, s₃, -, h⟩ := exists_of_run_bind h
    obtain ⟨_, s₄, -, h⟩ := exists_of_run_bind h
    exact storeLanes_inWords _ h

end Emit

namespace Lowering

variable {c c' : Context}

theorem emitQuery_inWords {texture input : Ref} {q : QueryDesc} {info : SamplerInfo} {s : Emitter}
    {r : Unit × Emitter} (h : emitQuery texture (q.resolved input (some info)) s = .ok r) :
    ∀ lane ∈ (LaneMask.first info.componentCount).lanes,
      (q.dest info.encoding).InWords (.ofNat lane.val) := by
  unfold emitQuery at h
  cases hlane : (q.resolved input (some info)).divisorLane with
  | none =>
    rw [hlane] at h
    obtain ⟨texel, s₁, -, h⟩ := exists_of_run_bind h
    exact Emit.store_inWords h
  | some lane =>
    rw [hlane] at h
    obtain ⟨coord, s₁, -, h⟩ := exists_of_run_bind h
    obtain ⟨texel, s₂, -, h⟩ := exists_of_run_bind h
    exact Emit.store_inWords h

/-- The query was resolved against the samplers of a context. -/
def ResolvedBy (t : SamplerTable) (q : QueryDesc) (r : Query) : Prop :=
  ∃ input, r = q.resolved input (t.get? q.sampler)

/-- If the code of all queries is emitted, all that they may write has words for indices. -/
theorem emitQueries_inWords {queries : List QueryDesc} {rs : List Query}
    (hrs : List.Forall₂ (ResolvedBy c.samplers) queries rs) {n : Nat}
    (h : emitQueries rs c = .ok (n, c')) : Launch.QueriesInWords c queries := by
  induction queries generalizing c c' rs n with
  | nil => exact fun q hq => absurd hq List.not_mem_nil
  | cons q queries ih =>
    cases hrs with
    | @cons _ r _ rs hr hrs =>
    obtain ⟨input, rfl⟩ := hr
    have hsampler : (q.resolved input (c.samplers.get? q.sampler)).sampler = q.sampler := rfl
    unfold emitQueries at h
    rw [get_bind_run, hsampler] at h
    unfold Launch.QueriesInWords
    rw [List.forall_mem_cons]
    cases hq : c.samplers.get? q.sampler with
    | none =>
      rw [hq] at h
      exact ⟨fun info hinfo => absurd hinfo (by simp), ih hrs h⟩
    | some info =>
      rw [hq] at h
      obtain ⟨_, c₁, hquery, h⟩ := exists_of_run_bind h
      obtain ⟨n', c₂, hrest, -⟩ := exists_of_run_bind h
      -- the queries that follow are resolved against the same table
      obtain ⟨-, hfollows, -⟩ := (Context.lift_follows (L := fun _ => False)
        Emitter.emitQuery_sized).result trivial hquery
      obtain ⟨r₁, hemit, -⟩ := exists_of_bind hquery
      have hrest' := ih (c := c₁) (by rw [hfollows.samplers]; exact hrs) hrest
      unfold Launch.QueriesInWords at hrest'
      rw [hfollows.samplers] at hrest'
      refine ⟨fun info' hinfo => ?_, hrest'⟩
      obtain rfl := Option.some.inj hinfo
      exact emitQuery_inWords hemit

theorem resolveQueries_resolvedBy {queries : List QueryDesc} {rs : List Query}
    (h : queries.mapM resolveQuery c = .ok (rs, c')) :
    c'.samplers = c.samplers ∧ List.Forall₂ (ResolvedBy c'.samplers) queries rs := by
  have hensures : (Context.following fun _ => True).Ensures (queries.mapM resolveQuery) c
      fun rs c' => List.Forall₂ (ResolvedBy c'.samplers) queries rs := by
    refine Ensures.mapM (D := Context.following fun _ => True)
      (R := fun q r c => ResolvedBy c.samplers q r) queries
      (fun q r c₁ c₂ hl h => by rw [hl.samplers]; exact h) fun q hq c₁ _ => ?_
    unfold resolveQuery
    exact (Context.inputAt_follows trivial).bind fun input c₂ _ _ =>
      Ensures.get_bind (Ensures.pure _ ⟨input, rfl⟩)
  obtain ⟨-, hfollows, hrs⟩ := hensures.result trivial h
  exact ⟨hfollows.samplers, hrs⟩

/-- If a program is lowered, all that its queries may write has words for indices. -/
theorem lowerProgram_inWords {p : Program} {r : Except Failure Stats × Context}
    (h : lowerProgram p c = .ok r) : Launch.QueriesInWords c p.queries := by
  obtain ⟨rs, c₁, hresolve, h⟩ := exists_of_run_bind h
  obtain ⟨n, c₂, hemit, -⟩ := exists_of_run_bind h
  obtain ⟨hsamplers, hrs⟩ := resolveQueries_resolvedBy hresolve
  have hwords := emitQueries_inWords hrs hemit
  unfold Launch.QueriesInWords at hwords ⊢
  rw [hsamplers] at hwords
  exact hwords

/-! ## Starting a module -/

/-- A module can always be started, as long as there are ids. -/
theorem start_fault {settings : LiftSettings} {samplers : List SamplerDesc} {f : Fault}
    (h : Context.start settings samplers = .error f) : f = .idsExhausted := by
  have hprologue := Launch.prologue_ensures (e := ⟨fun _ _ => ⟨0, 0, 0, 0⟩, ∅⟩)
    (F := fun f => f = .idsExhausted) rfl samplers Environment.sound_empty
  unfold Context.start at h
  dsimp only at h
  split at hprologue
  · rename_i r b hb
    rw [hb] at h
    cases h
  · rename_i f' hb
    rw [hb] at h
    obtain rfl := Except.error.inj h
    exact hprologue

end Lowering

/-! ## Queries that overrun -/

theorem LaneMask.mem_lanes_first {count : UInt8} {lane : Fin 4} :
    lane ∈ (LaneMask.first count).lanes ↔ lane.val < count.toNat := by
  unfold LaneMask.lanes LaneMask.contains LaneMask.first
  have hmem : lane ∈ [(0 : Fin 4), 1, 2, 3] := by
    revert lane
    decide
  rw [List.mem_filter, and_iff_right hmem]
  simp only [BitVec.getElem_eq_testBit_toNat, BitVec.toNat_ofNat, Nat.testBit_mod_two_pow,
    Nat.pow_eq, Nat.testBit_two_pow_sub_one, Bool.and_eq_true, decide_eq_true_eq]
  omega

/-- Of the first lanes, the last one has the highest index. -/
theorem Operand.inWords_first_iff (op : Operand) {count : UInt8} (hpos : 1 ≤ count.toNat)
    (hle : count.toNat ≤ 4) :
    (∀ lane ∈ (LaneMask.first count).lanes, op.InWords (.ofNat lane.val)) ↔
      op.index.toNat + (count.toNat - 1) / op.encoding.lanesPerComponent.toNat < 2 ^ 32 := by
  have hdiv (lane : Fin 4) : (UInt32.ofNat lane.val / op.encoding.lanesPerComponent).toNat =
      lane.val / op.encoding.lanesPerComponent.toNat := by
    rw [UInt32.toNat_div, UInt32.toNat_ofNat_of_lt']
    exact Nat.lt_trans lane.isLt (by decide)
  have hlast : count.toNat - 1 < 4 := by omega
  simp only [LaneMask.mem_lanes_first, Operand.InWords, hdiv]
  constructor
  · intro h
    exact h ⟨count.toNat - 1, hlast⟩ (Nat.sub_lt hpos Nat.one_pos)
  · intro h lane hlane
    refine Nat.lt_of_le_of_lt (Nat.add_le_add_left (Nat.div_le_div_right ?_) _) h
    exact Nat.le_sub_one_of_lt hlane

/-- A query of a declared sampler writes past the last component that has a word for its index. -/
def Program.Overruns (p : Program) (q : QueryDesc) : Prop :=
  ∃ d, p.sampler? q.sampler = some d ∧
    2 ^ 32 ≤ q.destOffset.toNat + (d.componentCount.toNat - 1) /
      (q.storeEncoding.getD d.encoding).lanesPerComponent.toNat

variable {p : Program} {settings : LiftSettings}

theorem Program.componentCount_of_no_defect (hp : p.defect? = none) {index : UInt32}
    {d : SamplerDesc} (hd : p.sampler? index = some d) :
    1 ≤ d.componentCount.toNat ∧ d.componentCount.toNat ≤ 4 := by
  have hmem := List.mem_reverse.1 (List.mem_of_find?_eq_some hd)
  have hclamp := Program.sampler_of_no_defect hp hmem
  rw [SamplerTable.clampCount_eq] at hclamp
  have hbounds : 1 ≤ d.componentCount ∧ d.componentCount ≤ 4 := by grind
  exact hbounds

theorem Launch.queriesInWords_iff (hp : p.defect? = none) {image : UInt32 → Ref} {c : Context}
    (ht : Launch.Tabulates p image c.samplers) :
    Launch.QueriesInWords c p.queries ↔ ∀ q ∈ p.queries, ¬ p.Overruns q := by
  refine forall₂_congr fun q _ => ?_
  unfold Program.Overruns
  rw [ht q.sampler]
  cases hd : p.sampler? q.sampler with
  | none => simp
  | some d =>
    obtain ⟨hpos, hle⟩ := Program.componentCount_of_no_defect hp hd
    have hlast := Operand.inWords_first_iff (q.dest d.encoding) hpos hle
    simp only [Option.map_some, Option.some.injEq, forall_eq', exists_eq_left', Nat.not_le]
    exact hlast

/-! ## Programs -/

namespace Lowering

/-- Lowering an acceptable program faults for want of ids, or where a query overruns. -/
theorem lower_fault {F : Fault → Prop} (hF : F .idsExhausted) (hp : p.defect? = none)
    (hslots : settings.registerSlots.toNat < 2 ^ 30)
    (hadd : F .overflow ∨ ∀ q ∈ p.queries, ¬ p.Overruns q) {f : Fault}
    (h : lower settings p = .error f) : F f := by
  have hmul : settings.registerSlots.toNat * 4 < UInt32.size := by
    show _ < 4294967296
    omega
  unfold lower at h
  cases hstart : Context.start settings p.samplers with
  | error f' =>
    rw [hstart] at h
    obtain rfl := Except.error.inj h
    rw [start_fault hstart]
    exact hF
  | ok c =>
    have hbegins : (Launch.blank settings.registerSlots).Begins p.samplers c :=
      Launch.start_begins rfl hstart
    have htable := Program.tabulates_of_lists hp hbegins.lists
    have hensures := Launch.lowerProgram_ensures (fun _ => []) hF (.inr hmul) htable
      (fun q hq lane hlane => Program.divisor_of_no_defect hp hq hlane)
      (hadd.imp_right (Launch.queriesInWords_iff hp htable).2)
      (plansWithin_of_lt hmul c.samplers p.instructions) (fun _ => hbegins.state) hbegins.ready
    rw [hstart] at h
    cases hlower : lowerProgram p c with
    | ok r =>
      simp only [bind, Except.bind, hlower] at h
      cases h
    | error f' =>
      simp only [bind, Except.bind, hlower] at h
      obtain rfl := Except.error.inj h
      rw [hlower] at hensures
      exact hensures

/-- No query of a program that is lowered overruns. -/
theorem not_overruns_of_lower (hp : p.defect? = none) {r : Except Failure LiftedModule}
    (h : lower settings p = .ok r) : ∀ q ∈ p.queries, ¬ p.Overruns q := by
  obtain ⟨c, hstart, h⟩ := exists_of_bind h
  obtain ⟨r₁, hlower, -⟩ := exists_of_bind h
  have hbegins : (Launch.blank settings.registerSlots).Begins p.samplers c :=
    Launch.start_begins rfl hstart
  exact (Launch.queriesInWords_iff hp (Program.tabulates_of_lists hp hbegins.lists)).1
    (lowerProgram_inWords hlower)

end Lowering

/-- A fresh lifter refuses programs with a defect, and ends in a fault exactly if a query of a declared
sampler overruns. There is no other fault, ids aside. -/
theorem lift_faults_iff_overruns {κ : Type} [DecidableEq κ] (key : Program → κ)
    (settings : LiftSettings) (p : Program) (hslots : settings.registerSlots.toNat < 2 ^ 30)
    (hids : Lifter.lift key { settings } p ≠ .error .idsExhausted) :
    (∀ d, p.defect? = some d →
      Lifter.lift key { settings } p = .ok (.error (.invalidProgram d.message), { settings })) ∧
    (p.defect? = none →
      ((∃ f, Lifter.lift key { settings } p = .error f) ↔ ∃ q ∈ p.queries, p.Overruns q)) ∧
    ∀ f, Lifter.lift key { settings } p = .error f → f = .overflow := by
  have hdefect (d : Defect) (hd : p.defect? = some d) : Lifter.lift key { settings } p =
      .ok (.error (.invalidProgram d.message), { settings }) := by
    unfold Lifter.lift
    rw [hd]
    rfl
  have hlower (hp : p.defect? = none) (f : Fault) :
      Lifter.lift key { settings } p = .error f ↔ lower settings p = .error f := by
    obtain ⟨l, hl⟩ := Lifter.lift_fresh key settings hp
    rw [hl]
    cases lower settings p with
    | error f' => simp [Except.map]
    | ok r => simp [Except.map]
  refine ⟨hdefect, fun hp => ⟨?_, ?_⟩, fun f hf => ?_⟩
  · rintro ⟨f, hf⟩
    by_contra hno
    have hfault := lower_fault (F := fun f => f = .idsExhausted) rfl hp hslots
      (.inr fun q hq hover => hno ⟨q, hq, hover⟩) ((hlower hp f).1 hf)
    exact hids (hfault ▸ hf)
  · rintro ⟨q, hq, hover⟩
    cases h : lower settings p with
    | error f => exact ⟨f, (hlower hp f).2 h⟩
    | ok r => exact absurd hover (not_overruns_of_lower hp h q hq)
  · cases hp : p.defect? with
    | some d =>
      rw [hdefect d hp] at hf
      cases hf
    | none =>
      have hfault := lower_fault (F := fun f => f = .idsExhausted ∨ f = .overflow) (.inl rfl) hp
        hslots (.inl (.inr rfl)) ((hlower hp f).1 hf)
      exact hfault.resolve_left fun h => hids (h ▸ hf)

/-- Two queries that differ in where they write: two lanes share the last word, four do not fit. -/
def lastWordProgram : Program where
  samplers := [{ index := 0, componentCount := 2, encoding := .f16 },
    { index := 1, componentCount := 4, encoding := .f16 }]
  queries := [{ sampler := 0, coordLocation := 0, destOffset := 4294967295 },
    { sampler := 1, coordLocation := 0, destOffset := 4294967295 }]

theorem lift_faults_iff_overruns_lastWordProgram :
    lastWordProgram.defect? = none ∧
    Lifter.lift id ({} : Lifter Program) lastWordProgram = .error .overflow ∧
    ∃ q ∈ lastWordProgram.queries, lastWordProgram.Overruns q := by
  have hfault : Lifter.lift id ({} : Lifter Program) lastWordProgram = .error .overflow := by
    have h : (match Lifter.lift id ({} : Lifter Program) lastWordProgram with
      | .error f => some f
      | .ok _ => none) = some .overflow := by decide +kernel
    cases hlift : Lifter.lift id ({} : Lifter Program) lastWordProgram with
    | error f =>
      rw [hlift] at h
      rw [Option.some.inj h]
    | ok r =>
      rw [hlift] at h
      cases h
  obtain ⟨-, hiff, -⟩ := lift_faults_iff_overruns id {} lastWordProgram (by decide)
    (by rw [hfault]; nofun)
  exact ⟨rfl, hfault, (hiff rfl).1 ⟨_, hfault⟩⟩

end TextureLift
