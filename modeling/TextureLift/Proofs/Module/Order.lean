import Mathlib.Data.List.Nodup
import TextureLift.Proofs.Module.Scope

/-!
# Order of definitions

What the invariant of the table means for the sections of a module. Every id that is defined is
defined once, and refers to ids that are defined before it:

    b.WellFormed → b.Ordered

Declarations stand in the order of their ids, so that a declaration that refers to a smaller id refers
to an earlier declaration.
-/

namespace TextureLift

/-- The ids that an instruction refers to: its result type and its operands. -/
def Inst.refs (i : Inst) : List Ref :=
  i.resultType.toList ++ i.idWords.map Ref.mk

namespace Builder

variable {b : Builder}

/-- The instructions that define ids. -/
def definers (b : Builder) : List Inst :=
  b.imports ++ b.globals ++ b.body.toList

/-- Every id is defined once and below the bound, and refers to ids that are defined before it. -/
structure Ordered (b : Builder) : Prop where
  distinct : (resultsOf b.definers).Nodup
  bounded : ∀ id ∈ resultsOf b.definers, id.word ≠ 0 ∧ id.word < b.bound
  globals : ∀ before i after, b.globals = before ++ i :: after →
    ∀ id ∈ i.refs, id ∈ resultsOf before
  body : ∀ before i after, b.body.toList = before ++ i :: after →
    ∀ id ∈ i.refs, id ∈ resultsOf (b.imports ++ b.globals ++ before)
  decorations : ∀ d ∈ b.decorations, d.target ∈ resultsOf b.definers
  entries : ∀ e ∈ b.entryPoints, ∀ id ∈ e.function :: e.interface, id ∈ resultsOf b.definers
  modes : ∀ e ∈ b.executionModes, e.function ∈ resultsOf b.definers

/-! ## Declarations -/

theorem declaration_result (d : Definition) (id : Ref) :
    (d.declaration? id).bind Inst.result = if d.isGlobal then some id else none := by
  cases d <;> rfl

theorem declaration_refs {d : Definition} {id : Ref} {i : Inst} (h : d.declaration? id = some i) :
    i.result = some id ∧ d.isGlobal ∧ i.refs = d.refs := by
  cases d with
  | plain => cases h
  | value t => cases h
  | type decl =>
    obtain rfl := Option.some.inj h
    refine ⟨rfl, rfl, ?_⟩
    cases decl <;> rfl
  | constant t bits =>
    obtain rfl := Option.some.inj h
    exact ⟨rfl, rfl, rfl⟩
  | var t s =>
    obtain rfl := Option.some.inj h
    exact ⟨rfl, rfl, rfl⟩

theorem results_globals (b : Builder) : resultsOf b.globals =
    b.definitions.toList.zipIdx.filterMap fun entry =>
      if entry.1.isGlobal then some ⟨.ofNat entry.2⟩ else none := by
  unfold resultsOf globals
  rw [List.filterMap_filterMap]
  exact congrArg (fun f => List.filterMap f _) (funext fun entry => declaration_result _ _)

theorem getElem?_of_mem_zipIdx {entry : Definition × Nat}
    (h : entry ∈ b.definitions.toList.zipIdx) : b.definitions[entry.2]? = some entry.1 := by
  rw [← Array.getElem?_toList]
  exact List.mem_zipIdx_iff_getElem?.1 h

/-- A new definition is declared after all others. -/
theorem globals_push {b' : Builder} {d : Definition} (h : b'.definitions = b.definitions.push d) :
    b'.globals = b.globals ++ (d.declaration? ⟨.ofNat b.definitions.size⟩).toList := by
  unfold globals
  rw [h, Array.toList_push, List.zipIdx_append, List.filterMap_append, Nat.zero_add,
    Array.length_toList]
  cases hd : d.declaration? ⟨.ofNat b.definitions.size⟩ <;> simp [hd]

namespace Numbered

variable (hb : b.Numbered)

include hb

theorem toNat_position {entry : Definition × Nat} (h : entry ∈ b.definitions.toList.zipIdx) :
    (UInt32.ofNat entry.2).toNat = entry.2 := by
  have hlt := (Array.getElem?_eq_some_iff.1 (getElem?_of_mem_zipIdx h)).1
  exact UInt32.toNat_ofNat_of_lt' (Nat.lt_trans hlt hb.size_lt)

/-- The declarations are those of types, constants and variables. -/
theorem mem_globals {i : Inst} : i ∈ b.globals ↔
    ∃ id d, b.definition? id = some d ∧ d.declaration? id = some i := by
  unfold globals
  rw [List.mem_filterMap]
  constructor
  · rintro ⟨entry, hmem, h⟩
    refine ⟨⟨.ofNat entry.2⟩, entry.1, ?_, h⟩
    unfold definition?
    rw [hb.toNat_position hmem]
    exact getElem?_of_mem_zipIdx hmem
  · rintro ⟨id, d, hd, h⟩
    refine ⟨(d, id.word.toNat), List.mk_mem_zipIdx_iff_getElem?.2 ?_, ?_⟩
    · rw [Array.getElem?_toList]
      exact hd
    · dsimp only
      rw [UInt32.ofNat_toNat]
      exact h

/-- The declared ids are those of types, constants and variables. -/
theorem mem_results_globals {id : Ref} : id ∈ resultsOf b.globals ↔
    ∃ d, b.definition? id = some d ∧ d.isGlobal := by
  rw [mem_resultsOf]
  constructor
  · rintro ⟨i, hi, hr⟩
    obtain ⟨id', d, hd, hdecl⟩ := hb.mem_globals.1 hi
    obtain ⟨hr', hglobal, -⟩ := declaration_refs hdecl
    obtain rfl := Option.some.inj (hr.symm.trans hr')
    exact ⟨d, hd, hglobal⟩
  · rintro ⟨d, hd, hglobal⟩
    have hresult := declaration_result d id
    rw [if_pos hglobal] at hresult
    obtain ⟨i, hdecl, hr⟩ := Option.bind_eq_some_iff.1 hresult
    exact ⟨i, hb.mem_globals.2 ⟨id, d, hd, hdecl⟩, hr⟩

theorem globals_ascending : (resultsOf b.globals).Pairwise fun id id' => id.word < id'.word := by
  rw [results_globals, List.pairwise_filterMap]
  have hpositions : b.definitions.toList.zipIdx.Pairwise fun entry entry' => entry.2 < entry'.2 := by
    rw [← List.pairwise_map (f := Prod.snd), List.zipIdx_map_snd]
    exact List.pairwise_lt_range'
  refine hpositions.imp_of_mem fun {entry entry'} hmem hmem' hlt id hid id' hid' => ?_
  split at hid <;> split at hid'
  · obtain rfl := Option.some.inj hid
    obtain rfl := Option.some.inj hid'
    rw [UInt32.lt_iff_toNat_lt, hb.toNat_position hmem, hb.toNat_position hmem']
    exact hlt
  · cases hid'
  · cases hid
  · cases hid

theorem nodup_globals : b.globals.Nodup := by
  refine (List.pairwise_filterMap.1 hb.globals_ascending).imp_of_mem fun {i i'} hi _ hlt heq => ?_
  obtain ⟨id, d, -, hdecl⟩ := hb.mem_globals.1 hi
  obtain ⟨hresult, -⟩ := declaration_refs hdecl
  exact absurd (hlt id hresult id (heq ▸ hresult)) (UInt32.lt_irrefl _)

/-! ## All sections -/

omit hb in
theorem results_imports (b : Builder) : resultsOf b.imports = b.extSet.toList := by
  unfold imports resultsOf
  rw [List.filterMap_map]
  exact List.filterMap_some

/-- What is in scope is defined by an import, a declaration or an instruction before. -/
theorem inScope_iff {code : List Inst} {id : Ref} :
    b.InScope code id ↔ id ∈ resultsOf (b.imports ++ b.globals ++ code) := by
  rw [resultsOf_append, resultsOf_append, results_imports, List.mem_append, List.mem_append,
    hb.mem_results_globals, Option.mem_toList, InScope, or_assoc]
  exact or_left_comm

theorem mem_results_definers {id : Ref} :
    id ∈ resultsOf b.definers ↔ b.InScope b.body.toList id :=
  hb.inScope_iff.symm

/-- The ids of the three sections are different. -/
theorem distinct : (resultsOf b.definers).Nodup := by
  have hbody : (resultsOf b.body.toList).Nodup :=
    (List.pairwise_map.1 hb.ascending).imp fun hlt heq => absurd hlt (by rw [heq]; exact Nat.lt_irrefl _)
  have hglobals : (resultsOf b.globals).Nodup :=
    hb.globals_ascending.imp fun hlt heq => absurd hlt (by rw [heq]; exact UInt32.lt_irrefl _)
  have himports : (resultsOf b.imports).Nodup := by
    rw [results_imports]
    cases b.extSet <;> simp
  unfold definers
  rw [resultsOf_append, resultsOf_append, List.nodup_append', List.nodup_append']
  refine ⟨⟨himports, hglobals, fun id hid hid' => ?_⟩, hbody, fun id hid hid' => ?_⟩
  · rw [results_imports, Option.mem_toList] at hid
    obtain ⟨d, hd, hglobal⟩ := hb.mem_results_globals.1 hid'
    rw [(hb.imported id hid).1] at hd
    cases hd
    cases hglobal
  · obtain ⟨i, hi, hr⟩ := mem_resultsOf.1 hid'
    rcases List.mem_append.1 hid with hid | hid
    · rw [results_imports, Option.mem_toList] at hid
      exact (hb.imported id hid).2.2 hid'
    · obtain ⟨d, hd, hglobal⟩ := hb.mem_results_globals.1 hid
      rcases (hb.results i hi id hr).2 with ⟨hd', -⟩ | ⟨t, -, hd'⟩
      · rw [hd'] at hd
        cases hd
        cases hglobal
      · rw [hd'] at hd
        cases hd
        cases hglobal

theorem bounded {id : Ref} (hid : id ∈ resultsOf b.definers) :
    id.word ≠ 0 ∧ id.word < b.bound := by
  have hscope := hb.mem_results_definers.1 hid
  constructor
  · rcases hscope with ⟨d, hd, hglobal⟩ | himport | hbody
    · intro hzero
      unfold definition? at hd
      rw [hzero] at hd
      obtain rfl := Option.some.inj (hb.reserved.symm.trans hd)
      cases hglobal
    · exact (hb.imported id himport).2.1
    · obtain ⟨i, hi, hr⟩ := mem_resultsOf.1 hbody
      exact (hb.results i hi id hr).1
  · obtain ⟨d, hd⟩ := hb.defined hscope
    rw [UInt32.lt_iff_toNat_lt, bound, hb.toNat_next]
    exact (Array.getElem?_eq_some_iff.1 hd).1

end Numbered

namespace WellFormed

variable (hb : b.WellFormed)

include hb

/-- Declarations refer to earlier declarations. -/
theorem globals_refs {before after : List Inst} {i : Inst} (h : b.globals = before ++ i :: after)
    {id : Ref} (hid : id ∈ i.refs) : id ∈ resultsOf before := by
  have hmem : i ∈ b.globals := by
    rw [h]
    exact List.mem_append_right _ (List.mem_cons_self ..)
  obtain ⟨entry, hentry, hi⟩ := List.mem_filterMap.1 hmem
  obtain ⟨hresult, -, hrefs⟩ := declaration_refs hi
  rw [hrefs] at hid
  obtain ⟨hlt, hdecl⟩ := hb.refs _ _ (getElem?_of_mem_zipIdx hentry) id hid
  obtain ⟨decl, hdecl⟩ := Option.isSome_iff_exists.1 hdecl
  have hglobal : id ∈ resultsOf b.globals :=
    hb.mem_results_globals.2 ⟨_, typeDecl?_eq_some.1 hdecl, rfl⟩
  have hascending := hb.globals_ascending
  rw [h, resultsOf_append, List.mem_append] at hglobal
  rw [h, resultsOf_append, List.pairwise_append] at hascending
  have hrest : resultsOf (i :: after) = ⟨.ofNat entry.2⟩ :: resultsOf after :=
    List.filterMap_cons_some hresult
  rw [hrest] at hglobal hascending
  -- from `i` on, the ids are at least that of `i`
  rcases hglobal with hglobal | hglobal
  · exact hglobal
  · have hle : entry.2 ≤ id.word.toNat := by
      rcases List.mem_cons.1 hglobal with rfl | hglobal
      · exact Nat.le_of_eq (hb.toNat_position hentry).symm
      · have hlt' := (List.pairwise_cons.1 hascending.2.1).1 id hglobal
        rw [UInt32.lt_iff_toNat_lt, hb.toNat_position hentry] at hlt'
        exact Nat.le_of_lt hlt'
    omega

/-- Instructions of the body refer to what is defined before them. -/
theorem body_refs {before after : List Inst} {i : Inst} (h : b.body.toList = before ++ i :: after)
    {id : Ref} (hid : id ∈ i.refs) : id ∈ resultsOf (b.imports ++ b.globals ++ before) := by
  refine hb.inScope_iff.1 ?_
  rcases List.mem_append.1 hid with hid | hid
  · have hmem : i ∈ b.body.toList := by
      rw [h]
      exact List.mem_append_right _ (List.mem_cons_self ..)
    have hdecl := hb.types i hmem id (Option.mem_toList.1 hid)
    obtain ⟨decl, hdecl⟩ := Option.isSome_iff_exists.1 hdecl
    exact .inl ⟨_, typeDecl?_eq_some.1 hdecl, rfl⟩
  · obtain ⟨w, hw, rfl⟩ := List.mem_map.1 hid
    exact hb.scope before i after h w hw

theorem ordered : b.Ordered where
  distinct := hb.distinct
  bounded _ hid := hb.bounded hid
  globals _ _ _ h _ hid := hb.globals_refs h hid
  body _ _ _ h _ hid := hb.body_refs h hid
  decorations d hd := hb.mem_results_definers.2 (hb.targets d hd)
  entries e he id hid := hb.mem_results_definers.2 (hb.entries e he id hid)
  modes e he := hb.mem_results_definers.2 (hb.modes e he)

end WellFormed

end Builder

end TextureLift
