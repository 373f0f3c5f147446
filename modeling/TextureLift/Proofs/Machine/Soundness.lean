import TextureLift.Proofs.Machine.Step

/-!
# Modules that run

A module under construction is sound if it is well formed and the machine runs its body from every
memory that fits its variables: no instruction is refused, every result has a value of its type, and
only private variables are written. Soundness is kept by the same ways of building as the
scope of ids is:

    Sound.idle     definitions without a value, and the frame of the function
    Sound.define   a declaration
    Sound.emit     an instruction with a result
    Sound.store    a store of four floats to a private variable

Each also says what the machine has done when the larger module was run.
-/

namespace TextureLift

open Builder

/-- The value has as many lanes as the type, of its kind; images are of the types of images. -/
def Value.HasType (b : Builder) (t : Ref) : Value → Prop
  | .lanes k bits => b.scalarKind? t = some k ∧ bits.length = (b.typeComponents t).toNat
  | .image _ => ∃ image, b.typeDecl? t = some (.sampledImage image)

/-- Every variable that has contents has contents of its type, and images have none. -/
def Builder.Typed (b : Builder) (memory : WordMap Value) : Prop :=
  ∀ id t s v, b.definition? id = some (.var t s) → memory[id.word]? = some v →
    s ≠ .uniformConstant ∧ v.HasType b (b.containedType t)

/-- What a run takes from outside the module: texels, and the contents of variables. -/
structure Environment where
  texels : Texels
  memory : WordMap Value

namespace Environment

/-- The machine before a run. -/
def start (e : Environment) : Machine :=
  { memory := e.memory }

/-- The machine after a run. -/
def after (e : Environment) (b : Builder) : Machine :=
  (Machine.run b e.texels e.start).1

/-- The memory fits the module. -/
def Fits (e : Environment) (b : Builder) : Prop :=
  b.Typed e.memory

/-- The machine reaches a store with a value of the type that the pointer points to. -/
def Stores (e : Environment) (b : Builder) (before : List Inst) (i : Inst) : Prop :=
  ∃ m pointer t v, e.start.steps b e.texels before = (m, none) ∧
    i.operandRef? 0 = some pointer ∧ b.definition? pointer = some (.var t .priv) ∧
    m.operand b i 1 = .ok v ∧ v.HasType b (b.containedType t)

/-- The machine runs the whole body, and what it leaves is typed. -/
structure Runs (e : Environment) (b : Builder) : Prop where
  done : Machine.run b e.texels e.start = (e.after b, none)
  values : ∀ id t, b.definition? id = some (.value t) →
    ∃ v, (e.after b).values[id.word]? = some v ∧ v.HasType b t
  known : ∀ id v, (e.after b).values[id.word]? = some v → ∃ t, b.definition? id = some (.value t)
  kept : ∀ id, (∀ t, b.definition? id ≠ some (.var t .priv)) →
    (e.after b).memory[id.word]? = e.memory[id.word]?
  written : ∀ id t v, b.definition? id = some (.var t .priv) →
    (e.after b).memory[id.word]? = some v → ∃ bits, v = .lanes .f32 bits ∧ bits.length = 4
  stores : ∀ before i after, b.body.toList = before ++ i :: after → i.opcode = .store →
    e.Stores b before i

/-- The module is well formed and runs from every memory that fits it. -/
structure Sound (e : Environment) (b : Builder) : Prop where
  wellFormed : b.WellFormed
  runs : e.Fits b → e.Runs b

end Environment

/-! ## Types in larger tables -/

section Growth

variable {b b' : Builder} {id t : Ref}

theorem Builder.typeDecl_of_scalarKind {k : ScalarKind} (h : b.scalarKind? t = some k) :
    (b.typeDecl? t).isSome := by
  cases ht : b.typeDecl? t with
  | some decl => rfl
  | none =>
    unfold scalarKind? at h
    simp only [containedType, ht] at h
    cases h

theorem Builder.TableLe.typeComponents (h : TableLe b b') (ht : (b.typeDecl? t).isSome) :
    b'.typeComponents t = b.typeComponents t := by
  obtain ⟨decl, hd⟩ := Option.isSome_iff_exists.1 ht
  simp only [Builder.typeComponents, hd, h.typeDecl hd]

theorem Builder.TableLe.containedType (h : TableLe b b') (ht : (b.typeDecl? t).isSome) :
    b'.containedType t = b.containedType t := by
  obtain ⟨decl, hd⟩ := Option.isSome_iff_exists.1 ht
  simp only [Builder.containedType, hd, h.typeDecl hd]

theorem Value.HasType.mono {v : Value} (hv : v.HasType b t) (h : TableLe b b') :
    v.HasType b' t := by
  cases v with
  | lanes k bits =>
    obtain ⟨hk, hl⟩ := hv
    exact ⟨h.scalarKind hk, by rw [h.typeComponents (typeDecl_of_scalarKind hk), hl]⟩
  | image source =>
    obtain ⟨image, hi⟩ := hv
    exact ⟨image, h.typeDecl hi⟩

theorem Builder.LaneType.hasType {k : ScalarKind} {n : UInt32} {bits : List UInt32}
    (h : b.LaneType t k n) (hn : bits.length = n.toNat) : (Value.lanes k bits).HasType b t :=
  ⟨h.scalarKind, by rw [h.typeComponents, hn]⟩

theorem Builder.LaneType.of_hasType {k : ScalarKind} {n : UInt32} {v : Value}
    (h : b.LaneType t k n) (hv : v.HasType b t) :
    ∃ bits, v = .lanes k bits ∧ bits.length = n.toNat := by
  cases v with
  | lanes k' bits =>
    obtain ⟨hk, hl⟩ := hv
    obtain rfl := Option.some.inj (h.scalarKind.symm.trans hk)
    exact ⟨bits, rfl, by rw [hl, h.typeComponents]⟩
  | image source =>
    obtain ⟨image, hi⟩ := hv
    rcases h with ⟨rfl, ht⟩ | ⟨hn, c, ht, hc⟩
    · rw [ht] at hi
      cases k <;> cases hi
    · rw [ht] at hi
      cases hi

/-- The type that a declared type contains is declared. -/
theorem Builder.WellFormed.typeDecl_containedType (hb : b.WellFormed)
    (ht : (b.typeDecl? t).isSome) : (b.typeDecl? (b.containedType t)).isSome := by
  obtain ⟨decl, hd⟩ := Option.isSome_iff_exists.1 ht
  have hr := hb.refs _ _ (typeDecl?_eq_some.1 hd)
  cases decl <;> simp only [containedType, hd] <;> first
    | exact rfl
    | exact (hr _ (List.mem_singleton_self _)).2

theorem Builder.TableLe.scalarKind_eq (hb : b.WellFormed) (h : TableLe b b')
    (ht : (b.typeDecl? t).isSome) : b'.scalarKind? t = b.scalarKind? t := by
  obtain ⟨decl, hd⟩ := Option.isSome_iff_exists.1 (hb.typeDecl_containedType ht)
  unfold scalarKind?
  rw [h.containedType ht, hd, h.typeDecl hd]

/-- The contents of a variable that was never written depend on its definition alone. -/
theorem Builder.WellFormed.initialValue_eq (hb : b.WellFormed) (h : TableLe b b')
    {d : Definition} (hd : b.definition? id = some d) : b.initialValue id = b'.initialValue id := by
  have hof : b'.typeOf? id = b.typeOf? id := by
    simp only [typeOf?, hd, h.definition hd]
  unfold initialValue
  rw [hof]
  cases ht : b.typeOf? id with
  | none =>
    -- ids without a type are taken for pointers of the type at position zero, which is none
    have hz : b.definition? .none = some .plain := hb.reserved
    have hz' := h.definition hz
    simp only [Option.getD_none, typeDecl?, containedType, scalarKind?, Builder.typeComponents,
      hz, hz']
  | some t =>
    have hdecl := hb.typeDecl_of_typeOf ht
    obtain ⟨decl, hd'⟩ := Option.isSome_iff_exists.1 hdecl
    have hcont := hb.typeDecl_containedType hdecl
    simp only [Option.getD_some, hd', h.typeDecl hd', h.containedType hdecl,
      h.scalarKind_eq hb hcont, h.typeComponents hcont]

/-- Loads of the body read alike under a larger table. -/
theorem Builder.Accepts.loadsAlike (hb : b.WellFormed) (h : TableLe b b') {i : Inst}
    (ha : ∀ w ∈ i.idWords, b.InScope b.body.toList ⟨w⟩) : Machine.LoadsAlike b b' i := by
  intro hop p hp
  obtain ⟨w, hw, rfl⟩ := Option.map_eq_some_iff.1 hp
  have hmem : w ∈ i.idWords := by
    unfold Inst.idWords
    rw [hop]
    obtain ⟨h0, rfl⟩ := List.getElem?_eq_some_iff.1 hw
    exact List.mem_take_iff_getElem.2 ⟨0, by omega, rfl⟩
  obtain ⟨d, hd⟩ := hb.defined (ha w hmem)
  exact hb.initialValue_eq h hd

theorem Builder.WellFormed.loadsAlike (hb : b.WellFormed) (h : TableLe b b') {i : Inst}
    (hi : i ∈ b.body.toList) : Machine.LoadsAlike b b' i := by
  obtain ⟨before, after, hs⟩ := List.append_of_mem hi
  refine Accepts.loadsAlike hb h fun w hw => ?_
  refine (hb.scope before i after hs w hw).mono (TableLe.refl b) (fun _ h => h) ?_
  rw [hs]
  exact List.subset_append_left _ _

end Growth

namespace Environment

variable {e : Environment} {b b' : Builder} {id t : Ref}

/-- A memory that fits a module fits every module that it extends. -/
theorem Fits.anti (hf : e.Fits b') (hb : b.WellFormed) (h : TableLe b b') : e.Fits b := by
  intro id t s v hd hv
  obtain ⟨h1, h2⟩ := hf id t s v (h.definition hd) hv
  refine ⟨h1, ?_⟩
  obtain ⟨p, hp, hs⟩ := hb.vars id t s hd
  rw [if_neg h1] at hs
  have hc : b.containedType t = p := by simp [containedType, hp]
  have hc' : b'.containedType t = p := by simp [containedType, h.typeDecl hp]
  rw [hc'] at h2
  rw [hc]
  obtain ⟨bits, rfl, hl⟩ := (hs.mono h).of_hasType h2
  exact hs.hasType hl

/-- Contents of variables other than images are four floats. -/
theorem Fits.four_floats (hf : e.Fits b) (hb : b.WellFormed) {s : Storage} {v : Value}
    (hd : b.definition? id = some (.var t s)) (hv : e.memory[id.word]? = some v) :
    ∃ bits, v = .lanes .f32 bits ∧ bits.length = 4 := by
  obtain ⟨h1, h2⟩ := hf id t s v hd hv
  obtain ⟨p, hp, hs⟩ := hb.vars id t s hd
  rw [if_neg h1] at hs
  have hc : b.containedType t = p := by simp [containedType, hp]
  rw [hc] at h2
  exact hs.of_hasType h2

/-- The run of a larger module goes on from the run of the smaller one. -/
theorem Runs.grow (hr : e.Runs b) (hb : b.WellFormed) (h : TableLe b b') (code : List Inst)
    (hbody : b'.body.toList = b.body.toList ++ code) :
    Machine.run b' e.texels e.start = (e.after b).steps b' e.texels code := by
  have h1 := Machine.steps_mono h e.start e.texels b.body.toList (e.after b)
    (fun i hi => hb.loadsAlike h hi) hr.done
  show e.start.steps b' e.texels b'.body.toList = _
  rw [hbody]
  exact Machine.steps_append e.start e.texels _ code h1

/-- The id after the last one is in no table. -/
theorem next_not_defined (hid : id.word.toNat = b.definitions.size)
    (d : Definition) : b.definition? id ≠ some d := by
  intro h
  have h1 := (Array.getElem?_eq_some_iff.1 h).1
  omega

theorem Stores.mono {before after : List Inst} {i : Inst} (h : e.Stores b before i)
    (hb : b.WellFormed) (hle : TableLe b b') (hbody : b.body.toList = before ++ i :: after) :
    e.Stores b' before i := by
  obtain ⟨m, pointer, t, v, hm, hp, hd, hv, ht⟩ := h
  refine ⟨m, pointer, t, v, ?_, hp, hle.definition hd,
    Machine.operand_below hle m i 1 v hv, ?_⟩
  · refine Machine.steps_mono hle e.start e.texels before m (fun j hj => hb.loadsAlike hle ?_) hm
    rw [hbody]
    exact List.mem_append_left _ hj
  · have hdecl := hb.typeDecl_of_typeOf (typeOf?_eq_some.2 ⟨_, hd, rfl⟩)
    rw [hle.containedType hdecl]
    exact ht.mono hle

/-- Stores of a body that grew by code without stores. -/
theorem Runs.stores_grow (hr : e.Runs b) (hb : b.WellFormed) (hle : TableLe b b')
    {code : List Inst} (hbody : b'.body.toList = b.body.toList ++ code)
    (hcode : ∀ i ∈ code, i.opcode ≠ .store) (before : List Inst) (i : Inst) (after : List Inst)
    (hsplit : b'.body.toList = before ++ i :: after) (hi : i.opcode = .store) :
    e.Stores b' before i := by
  rcases mem_or_split (hbody.symm.trans hsplit) with h | ⟨after', h⟩
  · exact absurd hi (hcode i h)
  · exact (hr.stores before i after' h hi).mono hb hle h

theorem steps_of_isFrame (m : Machine) (texels : Texels) (code : List Inst)
    (hcode : ∀ i ∈ code, i.opcode.isFrame) : m.steps b texels code = (m, none) := by
  induction code with
  | nil => rfl
  | cons i code ih =>
    have hi := hcode i (List.mem_cons_self ..)
    simp only [Machine.steps, Machine.step_of_isFrame hi]
    exact ih fun j hj => hcode j (List.mem_cons_of_mem i hj)

/-- Definitions that are no results of code, and instructions that the machine passes over, change
nothing for it. -/
theorem Sound.idle (hs : e.Sound b) (hwf : b'.WellFormed) (hle : TableLe b b') (code : List Inst)
    (hbody : b'.body.toList = b.body.toList ++ code) (hcode : ∀ i ∈ code, i.opcode.isFrame)
    (hnew : ∀ id d, b'.definition? id = some d →
      b.definition? id = some d ∨ b.definition? id = none ∧ ∀ t, d ≠ .value t) :
    e.Sound b' ∧ (e.Fits b' → e.after b' = e.after b) := by
  have hrun : e.Fits b' → Machine.run b' e.texels e.start = (e.after b, none) := by
    intro hf
    have hr := hs.runs (hf.anti hs.wellFormed hle)
    rw [hr.grow hs.wellFormed hle code hbody]
    exact steps_of_isFrame _ _ code hcode
  have hafter : e.Fits b' → e.after b' = e.after b := fun hf => by
    rw [after, hrun hf]
  refine ⟨⟨hwf, fun hf => ?_⟩, hafter⟩
  have hr := hs.runs (hf.anti hs.wellFormed hle)
  constructor
  · rw [hafter hf]
    exact hrun hf
  · intro id t hd
    rw [hafter hf]
    rcases hnew id _ hd with hd | ⟨-, hd⟩
    · obtain ⟨v, h1, h2⟩ := hr.values id t hd
      exact ⟨v, h1, h2.mono hle⟩
    · exact absurd rfl (hd t)
  · intro id v h
    rw [hafter hf] at h
    obtain ⟨t, ht⟩ := hr.known id v h
    exact ⟨t, hle.definition ht⟩
  · intro id hid
    rw [hafter hf]
    exact hr.kept id fun t ht => hid t (hle.definition ht)
  · intro id t v hd hv
    rw [hafter hf] at hv
    rcases hnew id _ hd with hd' | ⟨hnone, -⟩
    · exact hr.written id t v hd' hv
    · rw [hr.kept id fun t ht => by rw [hnone] at ht; cases ht] at hv
      exact hf.four_floats hwf hd hv
  · refine hr.stores_grow hs.wellFormed hle hbody fun i hi hop => ?_
    have hi' := hcode i hi
    rw [hop] at hi'
    cases hi'

/-- Additions that leave the body alone change nothing for the machine. -/
theorem Sound.sameBody (hs : e.Sound b) (hwf : b'.WellFormed) (hle : TableLe b b')
    (hbody : b'.body = b.body)
    (hnew : ∀ id d, b'.definition? id = some d →
      b.definition? id = some d ∨ b.definition? id = none ∧ ∀ t, d ≠ .value t) :
    e.Sound b' ∧ (e.Fits b' → e.after b' = e.after b) :=
  hs.idle hwf hle [] (by rw [hbody, List.append_nil]) (by simp) hnew

/-- A declaration, or the import. -/
theorem Sound.define (hs : e.Sound b) {d : Definition} (ha : b.Admits d) (hv : ∀ t, d ≠ .value t)
    (set : Option Ref)
    (hset : set = b.extSet ∨ d = .plain ∧ b.extSet = none ∧ set = some ⟨.ofNat b.definitions.size⟩)
    (hb' : b' = { b with definitions := b.definitions.push d, extSet := set }) :
    e.Sound b' ∧ (e.Fits b' → e.after b' = e.after b) := by
  have hpush : b'.definitions = b.definitions.push d := by rw [hb']
  refine hs.sameBody ?_ (tableLe_push d hpush) (by rw [hb']) ?_
  · rw [hb']
    exact hs.wellFormed.define ha hv hset
  · intro id d' hd
    rcases definition?_of_push hpush hd with hd | ⟨hid, rfl⟩
    · exact .inl hd
    · exact .inr ⟨Option.eq_none_iff_forall_ne_some.2 (next_not_defined hid), hv⟩

/-- An instruction with a result gives it a value of its type. -/
theorem Sound.emit (hs : e.Sound b) (ha : b.Admits (.value t)) {i : Inst} (hi : b.Accepts i)
    (hr : i.result = some ⟨.ofNat b.definitions.size⟩) (ht : i.resultType = some t)
    (hop : i.opcode.yields) {samples : Array SampleCall} {v : Value} (hv : v.HasType b t)
    (hstep : e.Fits b → (e.after b).step b e.texels i =
      .ok ({ e.after b with samples }.define i v))
    (hb' : b' = ({ b with definitions := b.definitions.push (.value t) } : Builder).append i) :
    e.Sound b' ∧ (e.Fits b' → e.after b' = { e.after b with samples }.define i v) := by
  have hpush : b'.definitions = b.definitions.push (.value t) := by rw [hb']; rfl
  have hle := tableLe_push _ hpush
  have hwf : b'.WellFormed := by
    rw [hb']
    exact hs.wellFormed.appendResult ha hi hr (.inr ⟨t, ht, rfl⟩)
  have hbody : b'.body.toList = b.body.toList ++ [i] := by
    rw [hb']
    exact Array.toList_push
  have hrun : e.Fits b' → Machine.run b' e.texels e.start =
      ({ e.after b with samples }.define i v, none) := by
    intro hf
    have hf' := hf.anti hs.wellFormed hle
    have hstep' := Machine.step_below hle (e.after b) i e.texels
      (Accepts.loadsAlike hs.wellFormed hle hi.scope) _ (hstep hf')
    rw [(hs.runs hf').grow hs.wellFormed hle [i] hbody]
    simp only [Machine.steps, hstep']
  have hafter : e.Fits b' → e.after b' = { e.after b with samples }.define i v := fun hf => by
    rw [after, hrun hf]
  refine ⟨⟨hwf, fun hf => ?_⟩, hafter⟩
  have hr' := hs.runs (hf.anti hs.wellFormed hle)
  have hnext := hs.wellFormed.toNat_next
  constructor
  · rw [hafter hf]
    exact hrun hf
  · intro id t' hd
    rw [hafter hf, Machine.values_define _ v hr]
    rcases definition?_of_push hpush hd with hd | ⟨hid, hd⟩
    · obtain ⟨w, h1, h2⟩ := hr'.values id t' hd
      have hne : (⟨.ofNat b.definitions.size⟩ : Ref) ≠ id := by
        rintro rfl
        exact next_not_defined hnext _ hd
      rw [if_neg hne]
      exact ⟨w, h1, h2.mono hle⟩
    · obtain rfl : t' = t := by cases hd; rfl
      have heq : (⟨.ofNat b.definitions.size⟩ : Ref) = id := by
        have h1 : id.word = UInt32.ofNat b.definitions.size := by
          rw [← UInt32.toNat_inj, hid, hnext]
        rw [← h1]
      rw [if_pos heq]
      exact ⟨v, rfl, hv.mono hle⟩
  · intro id w h
    rw [hafter hf, Machine.values_define _ v hr] at h
    split at h
    · rename_i heq
      exact ⟨t, heq ▸ definition?_next hpush hs.wellFormed.size_lt⟩
    · obtain ⟨t', ht'⟩ := hr'.known id w h
      exact ⟨t', hle.definition ht'⟩
  · intro id hid
    rw [hafter hf, Machine.memory_define]
    exact hr'.kept id fun t' h => hid t' (hle.definition h)
  · intro id t' w hd hw
    rw [hafter hf, Machine.memory_define] at hw
    rcases definition?_of_push hpush hd with hd | ⟨-, hd⟩
    · exact hr'.written id t' w hd hw
    · cases hd
  · refine hr'.stores_grow hs.wellFormed hle hbody fun j hj hop' => ?_
    obtain rfl := List.mem_singleton.1 hj
    rw [hop'] at hop
    cases hop

/-- The store of a value to a variable. -/
def storeInst (pointer value : Ref) : Inst :=
  { opcode := .store, operands := [pointer.word, value.word] }

/-- A store writes four floats to a private variable. -/
theorem Sound.store (hs : e.Sound b) {pointer value : Ref} {bits : List UInt32}
    (hp : b.definition? pointer = some (.var t .priv)) (hv : (b.typeOf? value).isSome)
    (hl : bits.length = 4)
    (hval : e.Fits b → (e.after b).value? b value = some (.lanes .f32 bits))
    (hb' : b' = b.append (storeInst pointer value)) :
    e.Sound b' ∧ (e.Fits b' → e.after b' = (e.after b).write pointer (.lanes .f32 bits)) := by
  have hle : TableLe b b' := by
    rw [hb']
    exact TableLe.refl b
  have hdef : ∀ id, b'.definition? id = b.definition? id := by
    rw [hb']
    exact fun _ => rfl
  have hwf : b'.WellFormed := by
    rw [hb']
    refine hs.wellFormed.append ⟨fun t h => (nomatch h), ?_⟩ rfl
    intro w hw
    rcases List.mem_cons.1 hw with rfl | hw
    · exact .inl ⟨_, hp, rfl⟩
    · obtain rfl := List.mem_singleton.1 hw
      exact hs.wellFormed.inScope_of_typeOf hv
  have hbody : b'.body.toList = b.body.toList ++ [storeInst pointer value] := by
    rw [hb']
    exact Array.toList_push
  have hrun : e.Fits b' → Machine.run b' e.texels e.start =
      ((e.after b).write pointer (.lanes .f32 bits), none) := by
    intro hf
    have hf' := hf.anti hs.wellFormed hle
    have hval' := Machine.value?_mono hle _ (hval hf')
    have hstep : (e.after b).step b' e.texels (storeInst pointer value) =
        .ok ((e.after b).write pointer (.lanes .f32 bits)) := by
      show (((e.after b).lookup b' value) >>= fun v => _) = _
      unfold Machine.lookup
      rw [hval']
      rfl
    rw [(hs.runs hf').grow hs.wellFormed hle [storeInst pointer value] hbody]
    simp only [Machine.steps, hstep]
  have hafter : e.Fits b' → e.after b' = (e.after b).write pointer (.lanes .f32 bits) :=
    fun hf => by rw [after, hrun hf]
  refine ⟨⟨hwf, fun hf => ?_⟩, hafter⟩
  have hr := hs.runs (hf.anti hs.wellFormed hle)
  constructor
  · rw [hafter hf]
    exact hrun hf
  · intro id t' hd
    rw [hafter hf]
    obtain ⟨w, h1, h2⟩ := hr.values id t' (hdef id ▸ hd)
    exact ⟨w, h1, h2.mono hle⟩
  · intro id w h
    rw [hafter hf] at h
    rw [hdef]
    exact hr.known id w h
  · intro id hid
    rw [hafter hf, Machine.memory_write]
    have hne : pointer ≠ id := by
      rintro rfl
      exact hid t (hle.definition hp)
    rw [if_neg hne]
    exact hr.kept id fun t' h => hid t' (hle.definition h)
  · intro id t' w hd hw
    rw [hafter hf, Machine.memory_write] at hw
    split at hw
    · exact ⟨bits, (Option.some.inj hw).symm, hl⟩
    · exact hr.written id t' w (hdef id ▸ hd) hw
  · intro before i after hsplit hi
    rcases append_singleton_split (hbody.symm.trans hsplit) with ⟨rfl, rfl, -⟩ | ⟨after', -, h⟩
    · have hrun := Machine.steps_mono hle e.start e.texels b.body.toList (e.after b)
        (fun i hi => hs.wellFormed.loadsAlike hle hi) hr.done
      obtain ⟨p, hp', hl'⟩ := hs.wellFormed.vars pointer t _ hp
      rw [if_neg (by decide)] at hl'
      have hc : b'.containedType t = p := by simp [containedType, hle.typeDecl hp']
      refine ⟨e.after b, pointer, t, .lanes .f32 bits, hrun, rfl, hle.definition hp, ?_, ?_⟩
      · show (e.after b).lookup b' value = _
        unfold Machine.lookup
        rw [Machine.value?_mono hle _ (hval (hf.anti hs.wellFormed hle))]
      · rw [hc]
        exact (hl'.mono hle).hasType hl
    · exact (hr.stores before i after' h hi).mono hs.wellFormed hle h

end Environment

end TextureLift
