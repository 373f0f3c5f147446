import TextureLift.Module.Build
import TextureLift.Proofs.Module.Table

/-!
# Ids and their definitions

Every id of a module is defined once: results of the body come in ascending order, and each is what the
table has. `Builder.Numbered` says so of any module under construction, whatever ids it refers to.

If only ids are used that were returned before, every id is also defined before it is used.
`Builder.WellFormed` is the invariant that carries this through the construction of a module:
declarations refer to earlier types, and the operands of an instruction of the body are declared, or
imported, or results of earlier instructions.

The invariants are kept by the three ways in which modules are built:

    define        a new definition that is no result of the body
    append        an instruction without a result
    appendResult  an instruction with a result, which takes the next id
-/

namespace TextureLift

/-! ## Ids among the operands -/

/-- The types that a declaration refers to. -/
def TypeDecl.refs : TypeDecl → List Ref
  | void | bool | int .. | float .. => []
  | vector component _ => [component]
  | pointer _ pointee => [pointee]
  | image sampled _ => [sampled]
  | sampledImage base => [base]
  | function result => [result]

/-- The types that a definition refers to. -/
def Definition.refs : Definition → List Ref
  | plain => []
  | type decl => decl.refs
  | constant t _ | var t _ | value t => [t]

/-- Definitions of types, constants and variables. -/
def Definition.isGlobal : Definition → Bool
  | type _ | constant .. | var .. => true
  | plain | value _ => false

/-- The instructions that compute, load or sample, and so have a result. -/
def Opcode.yields : Opcode → Bool
  | extInst | load | vectorExtractDynamic | vectorShuffle | compositeConstruct | compositeExtract
  | compositeInsert | imageSampleImplicitLod | imageSampleExplicitLod | imageSampleProjImplicitLod
  | convertFToU | convertFToS | convertSToF | convertUToF | bitcast | fMul | bitFieldInsert
  | bitFieldSExtract | bitFieldUExtract => true
  | _ => false

/-- The instructions that neither touch memory nor sample an image. -/
def Opcode.isPure : Opcode → Bool
  | extInst | vectorExtractDynamic | vectorShuffle | compositeConstruct | compositeExtract
  | compositeInsert | convertFToU | convertFToS | convertSToF | convertUToF | bitcast | fMul
  | bitFieldInsert | bitFieldSExtract | bitFieldUExtract => true
  | _ => false

theorem Opcode.yields_of_isPure {op : Opcode} (h : op.isPure) : op.yields := by
  cases op <;> first | rfl | cases h

/-- The instructions of straight-line code. -/
def Opcode.isCode (op : Opcode) : Bool :=
  op.yields || op == .store

/-- The instructions that open and close functions. The machine passes over them. -/
def Opcode.isFrame : Opcode → Bool
  | function | label | ret | functionEnd => true
  | _ => false

/-- The operand words that are ids; the others are literals. An explicit level of detail and the
instruction of an extended set are literals between ids. -/
def Inst.idWords (i : Inst) : List UInt32 :=
  match i.opcode with
  | .typeVector | .typeImage | .typeSampledImage | .typeFunction | .load | .compositeExtract
  | .convertFToU | .convertFToS | .convertSToF | .convertUToF | .bitcast | .decorate
  | .executionMode => i.operands.take 1
  | .typePointer | .function => (i.operands.drop 1).take 1
  | .store | .vectorExtractDynamic | .vectorShuffle | .compositeInsert | .fMul
  | .imageSampleImplicitLod | .imageSampleProjImplicitLod => i.operands.take 2
  | .imageSampleExplicitLod => i.operands.take 2 ++ i.operands.drop 3
  | .compositeConstruct | .bitFieldInsert | .bitFieldSExtract | .bitFieldUExtract => i.operands
  | .extInst => i.operands.take 1 ++ i.operands.drop 2
  | _ => []

/-- The results of some instructions. -/
def resultsOf (code : List Inst) : List Ref :=
  code.filterMap Inst.result

theorem mem_resultsOf {code : List Inst} {id : Ref} :
    id ∈ resultsOf code ↔ ∃ i ∈ code, i.result = some id :=
  List.mem_filterMap

theorem resultsOf_append (code code' : List Inst) :
    resultsOf (code ++ code') = resultsOf code ++ resultsOf code' :=
  List.filterMap_append

namespace Builder

variable {b b' : Builder} {id t : Ref}

/-! ## Well-formed modules -/

/-- Variables hold images if they are constant, and four floats otherwise. -/
def VariableType (b : Builder) (t : Ref) (s : Storage) : Prop :=
  ∃ p, b.typeDecl? t = some (.pointer s p) ∧
    if s = .uniformConstant then ∃ image, b.typeDecl? p = some (.sampledImage image)
    else b.LaneType p .f32 4

/-- Constants are scalars, and results of code have lanes or are images. -/
def Typing (b : Builder) : Definition → Prop
  | .constant t _ => ∃ k, b.LaneType t k 1
  | .var t s => b.VariableType t s
  | .value t => (∃ k n, b.LaneType t k n) ∨ ∃ image, b.typeDecl? t = some (.sampledImage image)
  | .plain | .type _ => True

/-- The id is declared, imported or a result of the given instructions. -/
def InScope (b : Builder) (code : List Inst) (id : Ref) : Prop :=
  (∃ d, b.definition? id = some d ∧ d.isGlobal) ∨ b.extSet = some id ∨ id ∈ resultsOf code

/-- Every id is defined once. -/
structure Numbered (b : Builder) : Prop where
  size_lt : b.definitions.size < UInt32.size
  reserved : b.definitions[0]? = some .plain
  imported : ∀ id, b.extSet = some id →
    b.definition? id = some .plain ∧ id.word ≠ 0 ∧ id ∉ resultsOf b.body.toList
  ascending : ((resultsOf b.body.toList).map (·.word.toNat)).Pairwise (· < ·)
  results : ∀ i ∈ b.body.toList, ∀ id, i.result = some id → id.word ≠ 0 ∧
    (b.definition? id = some .plain ∧ i.opcode.isFrame ∨
      ∃ t, i.resultType = some t ∧ b.definition? id = some (.value t))
  values : ∀ id t, b.definition? id = some (.value t) →
    ∃ i ∈ b.body.toList, i.result = some id ∧ i.resultType = some t

/-- Every id is defined once and before it is used. -/
structure WellFormed (b : Builder) : Prop extends Numbered b where
  refs : ∀ (i : Nat) (d : Definition), b.definitions[i]? = some d →
    ∀ r ∈ d.refs, r.word.toNat < i ∧ (b.typeDecl? r).isSome
  typing : ∀ id d, b.definition? id = some d → b.Typing d
  types : ∀ i ∈ b.body.toList, ∀ t, i.resultType = some t → (b.typeDecl? t).isSome
  scope : ∀ before i after, b.body.toList = before ++ i :: after →
    ∀ w ∈ i.idWords, b.InScope before ⟨w⟩
  targets : ∀ d ∈ b.decorations, b.InScope b.body.toList d.target
  entries : ∀ e ∈ b.entryPoints, ∀ id ∈ e.function :: e.interface, b.InScope b.body.toList id
  modes : ∀ e ∈ b.executionModes, b.InScope b.body.toList e.function

theorem VariableType.mono {s : Storage} (hv : b.VariableType t s) (h : TableLe b b') :
    b'.VariableType t s := by
  obtain ⟨p, hp, hs⟩ := hv
  refine ⟨p, h.typeDecl hp, ?_⟩
  split
  · rename_i hc
    rw [if_pos hc] at hs
    obtain ⟨image, hi⟩ := hs
    exact ⟨image, h.typeDecl hi⟩
  · rename_i hc
    rw [if_neg hc] at hs
    exact hs.mono h

/-- The id is a variable of a storage class, of four floats unless it holds an image. -/
def HasVariable (b : Builder) (id : Ref) (s : Storage) : Prop :=
  ∃ t, b.definition? id = some (.var t s) ∧ b.VariableType t s

theorem HasVariable.mono {s : Storage} (h : b.HasVariable id s) (hle : TableLe b b') :
    b'.HasVariable id s := by
  obtain ⟨t, ht, htype⟩ := h
  exact ⟨t, hle.definition ht, htype.mono hle⟩

theorem Typing.mono {d : Definition} (hd : b.Typing d) (h : TableLe b b') : b'.Typing d := by
  cases d with
  | constant t bits =>
    obtain ⟨k, hk⟩ := hd
    exact ⟨k, hk.mono h⟩
  | var t s => exact VariableType.mono hd h
  | value t =>
    rcases hd with ⟨k, n, hl⟩ | ⟨image, hi⟩
    · exact .inl ⟨k, n, hl.mono h⟩
    · exact .inr ⟨image, h.typeDecl hi⟩
  | plain | type decl => trivial

theorem Typing.typeDecl_isSome (h : b.Typing (.value t)) : (b.typeDecl? t).isSome := by
  rcases h with ⟨k, n, hl⟩ | ⟨image, hi⟩
  · exact hl.typeDecl_isSome
  · rw [hi]
    rfl

theorem WellFormed.vars (hb : b.WellFormed) (id t : Ref) (s : Storage)
    (h : b.definition? id = some (.var t s)) : b.VariableType t s :=
  hb.typing id _ h

theorem InScope.mono {code code' : List Inst} (hs : b.InScope code id) (h : TableLe b b')
    (he : ∀ e, b.extSet = some e → b'.extSet = some e) (hc : code ⊆ code') :
    b'.InScope code' id := by
  rcases hs with ⟨d, hd, hg⟩ | hs | hs
  · exact .inl ⟨d, h.definition hd, hg⟩
  · exact .inr (.inl (he id hs))
  · obtain ⟨i, hi, hr⟩ := mem_resultsOf.1 hs
    exact .inr (.inr (mem_resultsOf.2 ⟨i, hc hi, hr⟩))

theorem typeDecl_isSome_mono (h : TableLe b b') (ht : (b.typeDecl? t).isSome) :
    (b'.typeDecl? t).isSome := by
  obtain ⟨decl, hd⟩ := Option.isSome_iff_exists.1 ht
  rw [h.typeDecl hd]
  rfl

namespace Numbered

variable (hb : b.Numbered)

include hb

/-- Ids in scope are in the table. -/
theorem defined (h : b.InScope b.body.toList id) : ∃ d, b.definition? id = some d := by
  rcases h with ⟨d, hd, -⟩ | h | h
  · exact ⟨d, hd⟩
  · exact ⟨_, (hb.imported id h).1⟩
  · obtain ⟨i, hi, hr⟩ := mem_resultsOf.1 h
    rcases (hb.results i hi id hr).2 with ⟨h, -⟩ | ⟨t, -, h⟩
    · exact ⟨_, h⟩
    · exact ⟨_, h⟩

/-- Values, constants and variables are in scope at the end of the body. -/
theorem inScope_of_typeOf (h : (b.typeOf? id).isSome) : b.InScope b.body.toList id := by
  obtain ⟨t, ht⟩ := Option.isSome_iff_exists.1 h
  obtain ⟨d, hd, hv⟩ := typeOf?_eq_some.1 ht
  cases d with
  | plain => cases hv
  | type decl => cases hv
  | constant t' bits => exact .inl ⟨_, hd, rfl⟩
  | var t' s => exact .inl ⟨_, hd, rfl⟩
  | value t' =>
    obtain ⟨i, hi, hr, -⟩ := hb.values id t' hd
    exact .inr (.inr (mem_resultsOf.2 ⟨i, hi, hr⟩))

/-- The results of the body are in the table. -/
theorem result_lt {i : Inst} (hi : i ∈ b.body.toList) (hr : i.result = some id) :
    id.word.toNat < b.definitions.size := by
  rcases (hb.results i hi id hr).2 with ⟨h, -⟩ | ⟨t, -, h⟩
  · exact (Array.getElem?_eq_some_iff.1 h).1
  · exact (Array.getElem?_eq_some_iff.1 h).1

theorem imported_lt (h : b.extSet = some id) : id.word.toNat < b.definitions.size :=
  (Array.getElem?_eq_some_iff.1 (hb.imported id h).1).1

theorem toNat_next : (UInt32.ofNat b.definitions.size).toNat = b.definitions.size :=
  UInt32.toNat_ofNat_of_lt' hb.size_lt

theorem next_ne_zero : UInt32.ofNat b.definitions.size ≠ 0 := by
  intro h
  have h1 := hb.toNat_next
  have h2 := (Array.getElem?_eq_some_iff.1 hb.reserved).1
  rw [h] at h1
  simp at h1
  omega

end Numbered

/-- The type of a value is declared. -/
theorem WellFormed.typeDecl_of_typeOf (hb : b.WellFormed) (h : b.typeOf? id = some t) :
    (b.typeDecl? t).isSome := by
  obtain ⟨d, hd, hv⟩ := typeOf?_eq_some.1 h
  refine (hb.refs _ d hd t ?_).2
  cases d <;> simp_all [Definition.valueType?, Definition.refs]

/-! ## Adding to a module -/

section Push

variable {d : Definition} (hd : b'.definitions = b.definitions.push d)

include hd

/-- What a table with one more definition has at a position. -/
theorem getElem?_of_push {i : Nat} {e : Definition} (h : b'.definitions[i]? = some e) :
    b.definitions[i]? = some e ∨ i = b.definitions.size ∧ e = d := by
  rw [hd, Array.getElem?_push] at h
  split at h
  · exact .inr ⟨by assumption, (Option.some.inj h).symm⟩
  · exact .inl h

theorem definition?_of_push {id : Ref} {e : Definition} (h : b'.definition? id = some e) :
    b.definition? id = some e ∨ id.word.toNat = b.definitions.size ∧ e = d :=
  getElem?_of_push hd h

theorem definition?_next (hs : b.definitions.size < UInt32.size) :
    b'.definition? ⟨.ofNat b.definitions.size⟩ = some d := by
  show b'.definitions[(UInt32.ofNat b.definitions.size).toNat]? = some d
  rw [UInt32.toNat_ofNat_of_lt' hs, hd, Array.getElem?_push, if_pos rfl]

end Push

/-- What a new definition has to satisfy. -/
structure Admits (b : Builder) (d : Definition) : Prop where
  fits : b.definitions.size + 1 < UInt32.size
  refs : ∀ r ∈ d.refs, (b.typeDecl? r).isSome
  typing : b.Typing d

/-- The table keeps its invariants when a definition is added. -/
theorem WellFormed.refs_push (hb : b.WellFormed) {d : Definition} (ha : b.Admits d)
    (hd : b'.definitions = b.definitions.push d) (i : Nat) (e : Definition)
    (he : b'.definitions[i]? = some e) (r : Ref) (hr : r ∈ e.refs) :
    r.word.toNat < i ∧ (b'.typeDecl? r).isSome := by
  have hle := tableLe_push d hd
  rcases getElem?_of_push hd he with he | ⟨rfl, rfl⟩
  · obtain ⟨h1, h2⟩ := hb.refs i e he r hr
    exact ⟨h1, typeDecl_isSome_mono hle h2⟩
  · have h2 := ha.refs r hr
    obtain ⟨decl, h3⟩ := Option.isSome_iff_exists.1 h2
    exact ⟨(Array.getElem?_eq_some_iff.1 (typeDecl?_eq_some.1 h3)).1, typeDecl_isSome_mono hle h2⟩

theorem WellFormed.typing_push (hb : b.WellFormed) {d : Definition} (ha : b.Admits d)
    (hd : b'.definitions = b.definitions.push d) (id : Ref) (e : Definition)
    (he : b'.definition? id = some e) : b'.Typing e := by
  have hle := tableLe_push d hd
  rcases definition?_of_push hd he with he | ⟨-, rfl⟩
  · exact (hb.typing id e he).mono hle
  · exact ha.typing.mono hle

theorem Numbered.reserved_push (hb : b.Numbered) {d : Definition}
    (hd : b'.definitions = b.definitions.push d) : b'.definitions[0]? = some .plain :=
  tableLe_push d hd 0 _ hb.reserved

/-- A definition that is no result of the body, and perhaps the import. -/
theorem Numbered.define (hb : b.Numbered) {d : Definition}
    (hfits : b.definitions.size + 1 < UInt32.size) (hv : ∀ t, d ≠ .value t) {set : Option Ref}
    (hset : set = b.extSet ∨ d = .plain ∧ b.extSet = none ∧ set = some ⟨.ofNat b.definitions.size⟩) :
    Numbered { b with definitions := b.definitions.push d, extSet := set } := by
  have hd : ({ b with definitions := b.definitions.push d, extSet := set } : Builder).definitions =
    b.definitions.push d := rfl
  have hle := tableLe_push d hd
  exact {
    size_lt := by simpa using hfits
    reserved := hb.reserved_push hd
    imported := by
      intro id hid
      rcases hset with rfl | ⟨rfl, h, rfl⟩
      · obtain ⟨h1, h2⟩ := hb.imported id hid
        exact ⟨hle.definition h1, h2⟩
      · obtain rfl := Option.some.inj hid
        refine ⟨definition?_next hd hb.size_lt, hb.next_ne_zero, fun hmem => ?_⟩
        obtain ⟨i, hi, hr⟩ := mem_resultsOf.1 hmem
        have h1 := hb.result_lt hi hr
        rw [hb.toNat_next] at h1
        omega
    ascending := hb.ascending
    results := by
      intro i hi id hr
      obtain ⟨h1, h2⟩ := hb.results i hi id hr
      refine ⟨h1, h2.imp (And.imp_left hle.definition) ?_⟩
      rintro ⟨t, ht, h⟩
      exact ⟨t, ht, hle.definition h⟩
    values := by
      intro id t h
      rcases definition?_of_push hd h with h | ⟨-, h⟩
      · exact hb.values id t h
      · exact absurd h.symm (hv t) }

theorem WellFormed.define (hb : b.WellFormed) {d : Definition} (ha : b.Admits d)
    (hv : ∀ t, d ≠ .value t) {set : Option Ref}
    (hset : set = b.extSet ∨ d = .plain ∧ b.extSet = none ∧ set = some ⟨.ofNat b.definitions.size⟩) :
    WellFormed { b with definitions := b.definitions.push d, extSet := set } := by
  have hd : ({ b with definitions := b.definitions.push d, extSet := set } : Builder).definitions =
    b.definitions.push d := rfl
  have hle := tableLe_push d hd
  have hext : ∀ e, b.extSet = some e → set = some e := by
    rcases hset with rfl | ⟨-, h, -⟩
    · exact fun _ h => h
    · simp [h]
  have hscope : ∀ {code : List Inst} {id : Ref}, b.InScope code id →
      ({ b with definitions := b.definitions.push d, extSet := set } : Builder).InScope code id :=
    fun h => h.mono hle hext (List.Subset.refl _)
  exact { hb.toNumbered.define ha.fits hv hset with
    refs := hb.refs_push ha hd
    typing := hb.typing_push ha hd
    types := fun i hi t ht => typeDecl_isSome_mono hle (hb.types i hi t ht)
    scope := fun before i after h w hw => hscope (hb.scope before i after h w hw)
    targets := fun e he => hscope (hb.targets e he)
    entries := fun e he id hid => hscope (hb.entries e he id hid)
    modes := fun e he => hscope (hb.modes e he) }

/-- An element of two joined lists is in the second, or splits the first. -/
theorem mem_or_split {α : Type} {l l' before after : List α} {y : α}
    (h : l ++ l' = before ++ y :: after) : y ∈ l' ∨ ∃ after', l = before ++ y :: after' := by
  rcases List.append_eq_append_iff.1 h with ⟨rest, -, rfl⟩ | ⟨rest, hl, hrest⟩
  · exact .inl (List.mem_append_right rest (List.mem_cons_self ..))
  · cases rest with
    | nil =>
      rw [List.nil_append] at hrest
      exact .inl (hrest ▸ List.mem_cons_self ..)
    | cons z rest =>
      obtain ⟨rfl, -⟩ := List.cons.inj hrest
      exact .inr ⟨rest, hl⟩

/-- How a list that ends in an element splits around one of its elements. -/
theorem append_singleton_split {α : Type} {l before after : List α} {x y : α}
    (h : l ++ [x] = before ++ y :: after) :
    (before = l ∧ y = x ∧ after = []) ∨ ∃ after', after = after' ++ [x] ∧ l = before ++ y :: after' := by
  rcases List.eq_nil_or_concat after with rfl | ⟨after', z, rfl⟩
  · obtain ⟨rfl, h2⟩ := List.append_inj' h rfl
    exact .inl ⟨rfl, (List.cons.inj h2).1.symm, rfl⟩
  · rw [List.concat_eq_append, ← List.cons_append, ← List.append_assoc] at h
    obtain ⟨rfl, h2⟩ := List.append_inj' h rfl
    obtain rfl := (List.cons.inj h2).1
    exact .inr ⟨after', by simp, rfl⟩

/-- What an instruction at the end of the body has to satisfy. -/
structure Accepts (b : Builder) (i : Inst) : Prop where
  types : ∀ t, i.resultType = some t → (b.typeDecl? t).isSome
  scope : ∀ w ∈ i.idWords, b.InScope b.body.toList ⟨w⟩

/-- An instruction without a result. -/
theorem Numbered.append (hb : b.Numbered) {i : Inst} (hr : i.result = none) :
    (b.append i).Numbered := by
  have hbody : (b.append i).body.toList = b.body.toList ++ [i] := Array.toList_push
  have hres : resultsOf (b.append i).body.toList = resultsOf b.body.toList := by
    rw [hbody, resultsOf_append]
    simp [resultsOf, hr]
  exact {
    size_lt := hb.size_lt
    reserved := hb.reserved
    imported := by
      intro id h
      rw [hres]
      exact hb.imported id h
    ascending := by
      rw [hres]
      exact hb.ascending
    results := by
      intro j hj id h
      rw [hbody, List.mem_append, List.mem_singleton] at hj
      rcases hj with hj | rfl
      · exact hb.results j hj id h
      · rw [hr] at h
        cases h
    values := by
      intro id t h
      obtain ⟨j, hj, h1⟩ := hb.values id t h
      exact ⟨j, by rw [hbody]; exact List.mem_append_left _ hj, h1⟩ }

theorem WellFormed.append (hb : b.WellFormed) {i : Inst} (ha : b.Accepts i)
    (hr : i.result = none) : (b.append i).WellFormed := by
  have hbody : (b.append i).body.toList = b.body.toList ++ [i] := Array.toList_push
  have hscope : ∀ {id : Ref}, b.InScope b.body.toList id →
      (b.append i).InScope (b.append i).body.toList id := by
    intro id h
    refine h.mono (TableLe.refl b) (fun _ h => h) ?_
    rw [hbody]
    exact List.subset_append_left _ _
  exact { hb.toNumbered.append hr with
    refs := hb.refs
    typing := hb.typing
    types := by
      intro j hj t h
      rw [hbody, List.mem_append, List.mem_singleton] at hj
      rcases hj with hj | rfl
      · exact hb.types j hj t h
      · exact ha.types t h
    scope := by
      intro before j after h w hw
      rw [hbody] at h
      rcases append_singleton_split h with ⟨rfl, rfl, rfl⟩ | ⟨after', -, h'⟩
      · exact ha.scope w hw
      · exact hb.scope before j after' h' w hw
    targets := fun e he => hscope (hb.targets e he)
    entries := fun e he id hid => hscope (hb.entries e he id hid)
    modes := fun e he => hscope (hb.modes e he) }

/-- An instruction with a result, which takes the next id. Functions and labels have no value. -/
theorem Numbered.appendResult (hb : b.Numbered) {d : Definition}
    (hfits : b.definitions.size + 1 < UInt32.size) {i : Inst}
    (hr : i.result = some ⟨.ofNat b.definitions.size⟩)
    (hdi : d = .plain ∧ i.opcode.isFrame ∨ ∃ t, i.resultType = some t ∧ d = .value t) :
    (({ b with definitions := b.definitions.push d } : Builder).append i).Numbered := by
  have hpush : (({ b with definitions := b.definitions.push d } : Builder).append i).definitions =
    b.definitions.push d := rfl
  have hle := tableLe_push d hpush
  have hbody : (({ b with definitions := b.definitions.push d } : Builder).append i).body.toList =
    b.body.toList ++ [i] := Array.toList_push
  have hres : resultsOf (b.body.toList ++ [i]) =
      resultsOf b.body.toList ++ [⟨.ofNat b.definitions.size⟩] := by
    rw [resultsOf_append]
    simp [resultsOf, hr]
  exact {
    size_lt := by simpa [Builder.append] using hfits
    reserved := hb.reserved_push hpush
    imported := by
      intro id h
      obtain ⟨h1, h2, h3⟩ := hb.imported id h
      refine ⟨hle.definition h1, h2, ?_⟩
      rw [hbody, hres, List.mem_append, List.mem_singleton]
      rintro (h4 | rfl)
      · exact h3 h4
      · have h5 := hb.imported_lt h
        rw [hb.toNat_next] at h5
        omega
    ascending := by
      rw [hbody, hres, List.map_append, List.pairwise_append]
      refine ⟨hb.ascending, by simp, ?_⟩
      intro x hx y hy
      obtain ⟨id, hid, rfl⟩ := List.mem_map.1 hx
      obtain ⟨j, hj, h1⟩ := mem_resultsOf.1 hid
      obtain rfl : y = (UInt32.ofNat b.definitions.size).toNat := List.mem_singleton.1 hy
      rw [hb.toNat_next]
      exact hb.result_lt hj h1
    results := by
      intro j hj id h
      rw [hbody, List.mem_append, List.mem_singleton] at hj
      rcases hj with hj | rfl
      · obtain ⟨h1, h2⟩ := hb.results j hj id h
        refine ⟨h1, h2.imp (And.imp_left hle.definition) ?_⟩
        rintro ⟨t, ht, h3⟩
        exact ⟨t, ht, hle.definition h3⟩
      · obtain rfl := Option.some.inj (hr.symm.trans h)
        have h1 := definition?_next hpush hb.size_lt
        refine ⟨hb.next_ne_zero, ?_⟩
        rcases hdi with ⟨rfl, hframe⟩ | ⟨t, ht, rfl⟩
        · exact .inl ⟨h1, hframe⟩
        · exact .inr ⟨t, ht, h1⟩
    values := by
      intro id t h
      rcases definition?_of_push hpush h with h | ⟨hid, h⟩
      · obtain ⟨j, hj, h1⟩ := hb.values id t h
        exact ⟨j, by rw [hbody]; exact List.mem_append_left _ hj, h1⟩
      · refine ⟨i, by rw [hbody]; simp, ?_⟩
        have hidw : id = ⟨.ofNat b.definitions.size⟩ := by
          have h1 : id.word = UInt32.ofNat b.definitions.size := by
            rw [← UInt32.toNat_inj, hid, hb.toNat_next]
          cases id
          simp_all
        rcases hdi with ⟨rfl, -⟩ | ⟨t', ht, rfl⟩
        · cases h
        · cases h
          exact ⟨hidw ▸ hr, ht⟩ }

theorem WellFormed.appendResult (hb : b.WellFormed) {d : Definition} (hd : b.Admits d) {i : Inst}
    (ha : b.Accepts i) (hr : i.result = some ⟨.ofNat b.definitions.size⟩)
    (hdi : d = .plain ∧ i.opcode.isFrame ∨ ∃ t, i.resultType = some t ∧ d = .value t) :
    (({ b with definitions := b.definitions.push d } : Builder).append i).WellFormed := by
  have hpush : (({ b with definitions := b.definitions.push d } : Builder).append i).definitions =
    b.definitions.push d := rfl
  have hle := tableLe_push d hpush
  have hbody : (({ b with definitions := b.definitions.push d } : Builder).append i).body.toList =
    b.body.toList ++ [i] := Array.toList_push
  have hscope : ∀ {id : Ref}, b.InScope b.body.toList id →
      (({ b with definitions := b.definitions.push d } : Builder).append i).InScope
        (({ b with definitions := b.definitions.push d } : Builder).append i).body.toList id := by
    intro id h
    refine h.mono hle (fun _ h => h) ?_
    rw [hbody]
    exact List.subset_append_left _ _
  exact { hb.toNumbered.appendResult hd.fits hr hdi with
    refs := hb.refs_push hd hpush
    typing := hb.typing_push hd hpush
    types := by
      intro j hj t h
      rw [hbody, List.mem_append, List.mem_singleton] at hj
      rcases hj with hj | rfl
      · exact typeDecl_isSome_mono hle (hb.types j hj t h)
      · exact typeDecl_isSome_mono hle (ha.types t h)
    scope := by
      intro before j after h w hw
      rw [hbody] at h
      rcases append_singleton_split h with ⟨rfl, rfl, rfl⟩ | ⟨after', -, h'⟩
      · exact (ha.scope w hw).mono hle (fun _ h => h) (List.Subset.refl _)
      · exact (hb.scope before j after' h' w hw).mono hle (fun _ h => h) (List.Subset.refl _)
    targets := fun e he => hscope (hb.targets e he)
    entries := fun e he id hid => hscope (hb.entries e he id hid)
    modes := fun e he => hscope (hb.modes e he) }

/-! ## The empty module -/

theorem eq_plain_of_empty {i : Nat} {d : Definition}
    (h : ({} : Builder).definitions[i]? = some d) : d = .plain := by
  simpa using Array.mem_of_getElem? h

theorem wellFormed_empty : WellFormed {} := {
  size_lt := by decide
  reserved := rfl
  refs := fun i d h r hr => by
    rw [eq_plain_of_empty h] at hr
    cases hr
  typing := fun id d h => by
    rw [eq_plain_of_empty h]
    trivial
  imported := fun id h => by cases h
  ascending := .nil
  results := fun i hi => by cases hi
  values := fun id t h => by cases eq_plain_of_empty h
  types := fun i hi => by cases hi
  scope := fun before i after h => by cases before <;> cases h
  targets := fun d hd => by simp at hd
  entries := fun d hd => by simp at hd
  modes := fun d hd => by simp at hd }

end Builder

/-! ## Actions that define an id -/

/-- An action that looks at the state first. -/
theorem get_bind_run {σ ε α : Type} (f : σ → StateT σ (Except ε) α) (s : σ) :
    (get >>= f : StateT σ (Except ε) α) s = f s s :=
  rfl

namespace Build

/-- Defines the next id and adds what goes with it. -/
def defineWith (d : Definition) (f : Ref → Builder → Builder) : Build Ref := do
  let id ← fresh d
  modify (f id)
  return id

section DefineWith

variable {b : Builder} (d : Definition) (f : Ref → Builder → Builder)

theorem defineWith_of_lt (hsize : b.definitions.size + 1 < UInt32.size) :
    defineWith d f b = .ok (⟨.ofNat b.definitions.size⟩, f ⟨.ofNat b.definitions.size⟩
      { b with definitions := b.definitions.push d }) := by
  show (fresh d b >>= fun r => _) = _
  rw [show fresh d b = _ from if_pos hsize]
  rfl

theorem defineWith_of_not_lt (hsize : ¬ b.definitions.size + 1 < UInt32.size) :
    defineWith d f b = .error .idsExhausted := by
  show (fresh d b >>= fun r => _) = _
  rw [show fresh d b = _ from if_neg hsize]
  rfl

end DefineWith

/-- Appends an instruction whose result has no type. -/
def frame (i : Ref → Inst) : Build Ref :=
  defineWith .plain fun id => (·.append (i id))

theorem beginFunction_eq : beginFunction = do
    let void ← type .void
    let functionType ← type (.function void)
    let main ← frame fun id => ⟨.function, some void, some id, [0, functionType.word]⟩
    let _ ← frame fun id => { opcode := .label, result := some id }
    return main := by
  simp only [beginFunction, frame, defineWith, bind_assoc, pure_bind]

end Build

end TextureLift
