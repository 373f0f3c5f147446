import TextureLift.Proofs.Action
import TextureLift.Proofs.Module.Order

/-!
# Types and constants are declared once

A type or a constant is looked for in the table before it is defined. `Builder.Tabled` adds to the
numbering of the ids that no type and no constant is in the table twice, so that a definition and its
id determine each other. Each type and each constant then has one declaration, and each value one
definer (`Tabled.declared`, `Tabled.patterns`, `Tabled.typed`). Actions keep a module tabled and what is
recorded in it (`recording`). Nothing is asked of the ids that definitions refer to.
-/

namespace TextureLift

open Build Discipline

/-- Definitions that are looked for before they are made. -/
def Definition.isInterned : Definition → Bool
  | type _ | constant .. => true
  | plain | var .. | value _ => false

/-! ## Declarations determine types -/

theorem Ref.word_inj {r r' : Ref} : r.word = r'.word ↔ r = r' :=
  ⟨congrArg Ref.mk, congrArg Ref.word⟩

theorem Storage.number_inj {s s' : Storage} : s.number = s'.number ↔ s = s' := by
  cases s <;> cases s' <;> decide

theorem ImageDim.number_inj {d d' : ImageDim} : d.number = d'.number ↔ d = d' := by
  cases d <;> cases d' <;> decide

theorem toUInt32_inj {x y : Bool} : x.toUInt32 = y.toUInt32 ↔ x = y := by
  cases x <;> cases y <;> decide

/-- The instruction declares the type, under whatever id. -/
def TypeDecl.DeclaredBy (decl : TypeDecl) (i : Inst) : Prop :=
  i.opcode = decl.opcode ∧ i.operands = decl.operands

instance (decl : TypeDecl) (i : Inst) : Decidable (decl.DeclaredBy i) :=
  inferInstanceAs (Decidable (_ ∧ _))

theorem TypeDecl.eq_of_declaredBy_inst {decl decl' : TypeDecl} {id : Ref}
    (h : decl.DeclaredBy (decl'.inst id)) : decl' = decl := by
  obtain ⟨hop, hoperands⟩ := h
  cases decl <;> cases decl' <;> cases hop <;>
    simp_all [inst, operands, Ref.word_inj, Storage.number_inj, ImageDim.number_inj, toUInt32_inj]

theorem TypeDecl.opcode_ne (decl : TypeDecl) : decl.opcode ≠ .constant ∧ decl.opcode ≠ .var := by
  cases decl <;> simp [opcode]

/-- The declarations of a definition. -/
theorem Definition.of_declaration? {d : Definition} {id : Ref} {i : Inst}
    (h : d.declaration? id = some i) : (∃ decl, d = .type decl ∧ i = decl.inst id) ∨
      (∃ t bits, d = .constant t bits ∧ i = ⟨.constant, some t, some id, [bits]⟩) ∨
      ∃ t s, d = .var t s ∧ i = ⟨.var, some t, some id, [s.number]⟩ := by
  cases d with
  | plain => cases h
  | value t => cases h
  | type decl => exact .inl ⟨decl, rfl, (Option.some.inj h).symm⟩
  | constant t bits => exact .inr (.inl ⟨t, bits, rfl, (Option.some.inj h).symm⟩)
  | var t s => exact .inr (.inr ⟨t, s, rfl, (Option.some.inj h).symm⟩)

namespace Builder

variable {b b' : Builder} {d : Definition} {id : Ref}

/-- Ids are numbered, and each type and constant has one of them. -/
structure Tabled (b : Builder) : Prop extends Numbered b where
  once : ∀ (i j : Nat) (d : Definition), d.isInterned = true →
    b.definitions[i]? = some d → b.definitions[j]? = some d → i = j

/-! ## Looking up -/

/-- The id of the first definition that is equal to `d`. -/
def idOf? (b : Builder) (d : Definition) : Option Ref :=
  (b.definitions.idxOf? d).map fun i => ⟨.ofNat i⟩

theorem intern_eq (d : Definition) (b : Builder) : intern d b =
    match b.idOf? d with
    | some id => .ok (id, b)
    | none => fresh d b := by
  unfold intern idOf?
  rw [get_bind_run]
  cases b.definitions.idxOf? d <;> rfl

theorem Numbered.definition?_of_idOf? (hb : b.Numbered) (h : b.idOf? d = some id) :
    b.definition? id = some d := by
  obtain ⟨i, hi, rfl⟩ := Option.map_eq_some_iff.1 h
  exact definition?_of_idxOf? hb.size_lt hi

theorem getElem?_ne_of_idOf? (h : b.idOf? d = none) (i : Nat) : b.definitions[i]? ≠ some d := by
  intro hi
  have hnone := Array.idxOf?_eq_none_iff.1 (Option.map_eq_none_iff.1 h)
  exact hnone (Array.mem_of_getElem? hi)

namespace Tabled

variable (hb : b.Tabled)

include hb

/-- A definition determines its id. -/
theorem eq_of_definition? {id' : Ref} (hd : d.isInterned = true) (h : b.definition? id = some d)
    (h' : b.definition? id' = some d) : id = id' := by
  have hword := hb.once _ _ d hd h h'
  exact Ref.word_inj.1 (UInt32.toNat_inj.1 hword)

theorem idOf?_eq_some (hd : d.isInterned = true) : b.idOf? d = some id ↔ b.definition? id = some d := by
  refine ⟨hb.definition?_of_idOf?, fun h => ?_⟩
  cases hfind : b.idOf? d with
  | none => exact absurd h (getElem?_ne_of_idOf? hfind _)
  | some id' => rw [hb.eq_of_definition? hd (hb.definition?_of_idOf? hfind) h]

end Tabled

/-! ## What is defined once -/

/-- Instructions with different results are told apart by them. -/
theorem eq_of_result {code : List Inst} (h : (resultsOf code).Nodup) {i j : Inst} (hi : i ∈ code)
    (hj : j ∈ code) (hri : i.result = some id) (hrj : j.result = some id) : i = j := by
  induction code with
  | nil => cases hi
  | cons k code ih =>
    have hrest : (resultsOf code).Nodup :=
      h.sublist ((List.sublist_cons_self k code).filterMap _)
    have hother {l : Inst} (hrk : k.result = some id) (hl : l ∈ code) (hrl : l.result = some id) :
        False := by
      have hcons : resultsOf (k :: code) = id :: resultsOf code := List.filterMap_cons_some hrk
      rw [hcons] at h
      exact (List.nodup_cons.1 h).1 (mem_resultsOf.2 ⟨l, hl, hrl⟩)
    rcases List.mem_cons.1 hi with rfl | hi' <;> rcases List.mem_cons.1 hj with rfl | hj'
    · rfl
    · exact (hother hri hj' hrj).elim
    · exact (hother hrj hi' hri).elim
    · exact ih hrest hi' hj'

theorem eq_singleton_of_nodup {α : Type} {l : List α} {x : α} (hl : l.Nodup) (hx : x ∈ l)
    (h : ∀ y ∈ l, y = x) : l = [x] := by
  cases l with
  | nil => cases hx
  | cons y l =>
    obtain ⟨rfl, hrest⟩ := List.forall_mem_cons.1 h
    have hnil : l = [] := List.eq_nil_iff_forall_not_mem.2 fun z hz =>
      (List.nodup_cons.1 hl).1 (hrest z hz ▸ hz)
    rw [hnil]

namespace Tabled

variable (hb : b.Tabled)

include hb

theorem declared {decl : TypeDecl} (h : b.typeDecl? id = some decl) :
    b.globals.filter (fun i => decl.DeclaredBy i) = [decl.inst id] := by
  have hd := typeDecl?_eq_some.1 h
  refine eq_singleton_of_nodup (hb.nodup_globals.filter _) (List.mem_filter.2 ⟨?_, ?_⟩) fun i hi => ?_
  · exact hb.mem_globals.2 ⟨id, _, hd, rfl⟩
  · exact decide_eq_true ⟨rfl, rfl⟩
  · obtain ⟨hmem, hi⟩ := List.mem_filter.1 hi
    have hi := of_decide_eq_true hi
    obtain ⟨id', d, hd', hdecl⟩ := hb.mem_globals.1 hmem
    rcases Definition.of_declaration? hdecl with ⟨decl', rfl, rfl⟩ | ⟨t, bits, -, rfl⟩ | ⟨t, s, -, rfl⟩
    · obtain rfl := TypeDecl.eq_of_declaredBy_inst hi
      rw [hb.eq_of_definition? rfl hd' hd]
    · exact absurd hi.1.symm decl.opcode_ne.1
    · exact absurd hi.1.symm decl.opcode_ne.2

theorem constant_mem {t : Ref} {bits : UInt32} : b.constant? id = some (t, bits) ↔
    ⟨.constant, some t, some id, [bits]⟩ ∈ b.globals := by
  rw [constant?_eq_some, hb.mem_globals]
  constructor
  · exact fun h => ⟨id, _, h, rfl⟩
  · rintro ⟨id', d, hd, hdecl⟩
    rcases Definition.of_declaration? hdecl with ⟨decl, -, h⟩ | ⟨t', bits', rfl, h⟩ | ⟨t', s, -, h⟩
    · cases congrArg Inst.resultType h
    · cases h
      exact hd
    · cases congrArg Inst.opcode h

theorem patterns (t : Ref) (bits : UInt32) : (b.globals.filter fun i =>
    i.opcode = .constant ∧ i.resultType = some t ∧ i.operands = [bits]).length ≤ 1 := by
  have hsame {i : Inst} (hi : i ∈ b.globals.filter fun i =>
      i.opcode = .constant ∧ i.resultType = some t ∧ i.operands = [bits]) :
      ∃ id, b.definition? id = some (.constant t bits) ∧ i = ⟨.constant, some t, some id, [bits]⟩ := by
    obtain ⟨hmem, hi⟩ := List.mem_filter.1 hi
    obtain ⟨hop, ht, hbits⟩ := of_decide_eq_true hi
    obtain ⟨id, d, hd, hdecl⟩ := hb.mem_globals.1 hmem
    rcases Definition.of_declaration? hdecl with ⟨decl, -, rfl⟩ | ⟨t', bits', rfl, rfl⟩ | ⟨t', s, -, rfl⟩
    · exact absurd hop decl.opcode_ne.1
    · cases ht
      cases hbits
      exact ⟨id, hd, rfl⟩
    · cases hop
  generalize hl : b.globals.filter _ = l at hsame
  have hnodup : l.Nodup := hl ▸ hb.nodup_globals.filter _
  cases l with
  | nil => exact Nat.zero_le 1
  | cons i l =>
    refine Nat.le_of_eq (congrArg List.length (eq_singleton_of_nodup hnodup List.mem_cons_self
      fun j hj => ?_))
    obtain ⟨id, hid, rfl⟩ := hsame List.mem_cons_self
    obtain ⟨id', hid', rfl⟩ := hsame hj
    rw [hb.eq_of_definition? rfl hid hid']

/-- Values have one definition. -/
theorem exists_definer {t : Ref} (h : b.typeOf? id = some t) :
    ∃ i ∈ b.globals ++ b.body.toList, i.result = some id ∧ i.resultType = some t := by
  obtain ⟨d, hd, ht⟩ := typeOf?_eq_some.1 h
  have hglobal {i : Inst} (hdecl : d.declaration? id = some i) : i ∈ b.globals ++ b.body.toList :=
    List.mem_append_left _ (hb.mem_globals.2 ⟨id, d, hd, hdecl⟩)
  cases d with
  | plain => cases ht
  | type decl => cases ht
  | constant t' bits => exact ⟨_, hglobal rfl, rfl, ht⟩
  | var t' s => exact ⟨_, hglobal rfl, rfl, ht⟩
  | value t' =>
    cases ht
    obtain ⟨i, hi, hr, ht⟩ := hb.values id _ hd
    exact ⟨i, List.mem_append_right _ hi, hr, ht⟩

theorem typed {t : Ref} (h : b.typeOf? id = some t) : ∃ i, b.defining? id = some i ∧
    i.resultType = some t ∧ i.result = some id ∧ ∀ j ∈ b.definers, j.result = some id → j = i := by
  obtain ⟨i, hi, hr, ht⟩ := hb.exists_definer h
  have hdefiners {j : Inst} (hj : j ∈ b.globals ++ b.body.toList) : j ∈ b.definers := by
    unfold definers
    rw [List.append_assoc]
    exact List.mem_append_right _ hj
  have hunique (j : Inst) (hj : j ∈ b.definers) (hrj : j.result = some id) : j = i :=
    eq_of_result hb.distinct hj (hdefiners hi) hrj hr
  refine ⟨i, ?_, ht, hr, hunique⟩
  unfold defining?
  cases hfind : (b.globals ++ b.body.toList).find? (·.result == some id) with
  | none => exact absurd (beq_iff_eq.2 hr) (List.find?_eq_none.1 hfind i hi)
  | some j =>
    have hrj := List.find?_some hfind
    rw [hunique j (hdefiners (List.mem_of_find?_eq_some hfind)) (beq_iff_eq.1 hrj)]

end Tabled

theorem tabled_empty : Tabled {} where
  toNumbered := wellFormed_empty.toNumbered
  once _ _ d hd h _ := by
    rw [eq_plain_of_empty h] at hd
    cases hd

/-! ## What stays recorded -/

variable {b'' : Builder}

/-- Definitions stay, and so does the import. -/
structure Records (b b' : Builder) : Prop where
  table : TableLe b b'
  imported : ∀ id, b.extSet = some id → b'.extSet = some id

theorem Records.refl (b : Builder) : b.Records b :=
  ⟨TableLe.refl b, fun _ h => h⟩

theorem Records.trans (h : b.Records b') (h' : b'.Records b'') : b.Records b'' :=
  ⟨h.table.trans h'.table, fun id hid => h'.imported id (h.imported id hid)⟩

/-- Actions that keep a module in order. -/
def recording : Discipline Builder where
  keeps := Tabled
  leads := Records
  faults f := f = .idsExhausted
  refl := Records.refl
  trans := Records.trans

/-- A definition that is not looked for, or was looked for and is not there. -/
theorem Tabled.once_push (hb : b.Tabled) (hpush : b'.definitions = b.definitions.push d)
    (hnew : d.isInterned = true → ∀ i : Nat, b.definitions[i]? ≠ some d) (i j : Nat) (e : Definition)
    (he : e.isInterned = true) (hi : b'.definitions[i]? = some e) (hj : b'.definitions[j]? = some e) :
    i = j := by
  rcases getElem?_of_push hpush hi with hi | ⟨rfl, rfl⟩ <;>
    rcases getElem?_of_push hpush hj with hj | ⟨rfl, heq⟩
  · exact hb.once i j e he hi hj
  · exact absurd (heq ▸ hi) (hnew (heq ▸ he) i)
  · exact absurd hj (hnew he j)
  · rfl

theorem Tabled.append (hb : b.Tabled) {i : Inst} (hr : i.result = none) : (b.append i).Tabled :=
  { hb.toNumbered.append hr with once := hb.once }

theorem fresh_records (hv : ∀ t, d ≠ .value t)
    (hnew : d.isInterned = true → ∀ i : Nat, b.definitions[i]? ≠ some d) :
    recording.Ensures (fresh d) b fun id b' => b'.definition? id = some d := by
  by_cases hsize : b.definitions.size + 1 < UInt32.size
  · refine Ensures.of_ok (if_pos hsize) fun hb => ?_
    exact ⟨{ hb.toNumbered.define hsize hv (.inl rfl) with once := hb.once_push rfl hnew },
      ⟨tableLe_push d rfl, fun _ h => h⟩, definition?_next rfl hb.size_lt⟩
  · exact Ensures.of_error (if_neg hsize) rfl

theorem intern_records (hd : d.isInterned = true) :
    recording.Ensures (intern d) b fun id b' => b'.definition? id = some d := by
  cases hfind : b.idOf? d with
  | some id =>
    refine Ensures.of_ok (v := id) (t := b) ?_ fun hb =>
      ⟨hb, Records.refl b, hb.definition?_of_idOf? hfind⟩
    rw [intern_eq, hfind]
  | none =>
    have hv (t : Ref) : d ≠ .value t := by
      rintro rfl
      cases hd
    have hfresh := fresh_records hv fun _ => getElem?_ne_of_idOf? hfind
    unfold Discipline.Ensures at hfresh ⊢
    rw [intern_eq, hfind]
    exact hfresh

/-- An instruction with a result. -/
theorem define_records {i : Ref → Inst} (hresult : ∀ id, (i id).result = some id)
    (hdi : ∀ id, d = .plain ∧ (i id).opcode.isFrame ∨ ∃ t, (i id).resultType = some t ∧ d = .value t) :
    recording.Ensures (defineWith d fun id => (·.append (i id))) b fun _ _ => True := by
  by_cases hsize : b.definitions.size + 1 < UInt32.size
  · refine Ensures.of_ok (defineWith_of_lt d _ hsize) fun hb => ?_
    have hnew : d.isInterned = true → ∀ i : Nat, b.definitions[i]? ≠ some d := fun hd => by
      rcases hdi ⟨.ofNat b.definitions.size⟩ with ⟨rfl, -⟩ | ⟨t, -, rfl⟩ <;> cases hd
    exact ⟨{ hb.toNumbered.appendResult hsize (hresult _) (hdi _) with
      once := hb.once_push rfl hnew }, ⟨tableLe_push d rfl, fun _ h => h⟩, trivial⟩
  · exact Ensures.of_error (defineWith_of_not_lt d _ hsize) rfl

theorem emit_records {op : Opcode} {t : Ref} {operands : List UInt32} :
    recording.Ensures (emit op t operands) b fun _ _ => True :=
  define_records (fun _ => rfl) fun _ => .inr ⟨t, rfl, rfl⟩

/-- The import of a module that has none. -/
theorem defineExtSet_records (hset : b.extSet = none) :
    recording.Ensures (defineWith .plain fun id => ({ · with extSet := some id })) b fun id b' =>
      b'.extSet = some id := by
  by_cases hsize : b.definitions.size + 1 < UInt32.size
  · refine Ensures.of_ok (defineWith_of_lt .plain _ hsize) fun hb => ?_
    refine ⟨{ hb.toNumbered.define hsize (by simp) (.inr ⟨rfl, hset, rfl⟩) with
      once := hb.once_push rfl nofun }, ⟨tableLe_push _ rfl, fun id hid => ?_⟩, rfl⟩
    rw [hset] at hid
    cases hid
  · exact Ensures.of_error (defineWith_of_not_lt .plain _ hsize) rfl

theorem importExtSet_records :
    recording.Ensures importExtSet b fun id b' => b'.extSet = some id := by
  refine Ensures.get_bind ?_
  cases hset : b.extSet with
  | some id => exact Ensures.pure id hset
  | none => exact defineExtSet_records hset

theorem beginFunction_records : recording.Ensures beginFunction b fun _ _ => True := by
  rw [beginFunction_eq]
  refine (intern_records rfl).bind fun _ _ _ _ => (intern_records rfl).bind fun _ _ _ _ => ?_
  refine (define_records (fun _ => rfl) fun _ => .inl ⟨rfl, rfl⟩).bind fun _ _ _ _ => ?_
  exact (define_records (fun _ => rfl) fun _ => .inl ⟨rfl, rfl⟩).bind fun _ _ _ _ =>
    Ensures.pure _ trivial

end Builder

end TextureLift
