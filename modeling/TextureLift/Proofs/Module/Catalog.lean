import Mathlib.Data.List.AList
import TextureLift.Proofs.Module.Interning

/-!
# Modules with their tables kept apart

A `Builder` has one table, and its declarations, its types and the types of its values are views of it.
A `Catalog` is a module whose parts are kept apart: a counter of ids, eight sections, the id of the
imported set, and tables of types by declaration, of declarations by id, of constants by type and
pattern, and of the types of values. Every action has to enter what it adds in each of them.

    c.Shows b       the parts of a catalog are what the one table has
    Agree           an action on modules and one on catalogs end alike
    c.Consistent    what the parts of a catalog say of each other

The step is one action: if the parts agree with the table before it, they agree with it afterwards. What
the parts say of each other is then read off the table (`Shows.consistent`).
-/

namespace TextureLift

open Build Discipline

/-- A module under construction, with its tables kept apart. -/
structure Catalog where
  idBound : UInt32 := 1
  capabilities : List Inst := []
  imports : List Inst := []
  memoryModel : List Inst := []
  entryPoints : List Inst := []
  executionModes : List Inst := []
  annotations : List Inst := []
  /-- Types, constants and variables. -/
  globals : List Inst := []
  functions : List Inst := []
  /-- The id of the imported extended instruction set. -/
  extSet : Option Ref := none
  types : AList (fun _ : TypeDecl => Ref) := ∅
  typeDecls : AList (fun _ : Ref => TypeDecl) := ∅
  /-- The types of values. -/
  valueTypes : AList (fun _ : Ref => Ref) := ∅
  constants : AList (fun _ : Ref × UInt32 => Ref) := ∅

namespace Catalog

def typeDecl? (c : Catalog) (id : Ref) : Option TypeDecl :=
  c.typeDecls.lookup id

def typeOf? (c : Catalog) (value : Ref) : Option Ref :=
  c.valueTypes.lookup value

/-- Type and bits of a constant: the key of the entry that has its id. -/
def constant? (c : Catalog) (id : Ref) : Option (Ref × UInt32) :=
  (c.constants.entries.find? fun entry => entry.2 = id).map Sigma.fst

/-- The component type of a vector, the pointee of a pointer, otherwise the type itself. -/
def containedType (c : Catalog) (type : Ref) : Ref :=
  (c.typeDecl? type).elim type fun
    | .vector component _ => component
    | .pointer _ pointee => pointee
    | _ => type

/-- The instruction of the declarations or the body that defines an id. -/
def defining? (c : Catalog) (id : Ref) : Option Inst :=
  (c.globals ++ c.functions).find? (·.result == some id)

/-- The instructions that define ids. -/
def definers (c : Catalog) : List Inst :=
  c.imports ++ c.globals ++ c.functions

/-- The binary form. -/
def words (c : Catalog) : List UInt32 :=
  [0x07230203, 0x00010000, 0x00080001, c.idBound, 0] ++
    (c.capabilities ++ c.imports ++ c.memoryModel ++ c.entryPoints ++ c.executionModes ++
      c.annotations ++ c.globals ++ c.functions).flatMap Inst.words

end Catalog

/-! ## Actions -/

/-- Actions on a catalog. -/
abbrev Filing := StateT Catalog (Except Fault)

namespace Filing

/-- Takes the next id. The bound of the module has to stay a word. -/
def alloc : Filing Ref := fun c =>
  if c.idBound.toNat + 1 < UInt32.size then .ok (⟨c.idBound⟩, { c with idBound := c.idBound + 1 })
  else .error .idsExhausted

/-- Takes the next id and enters what goes with it. -/
def allocWith (f : Ref → Catalog → Catalog) : Filing Ref := do
  let id ← alloc
  modify (f id)
  return id

/-- Imports the extended instruction set, once. -/
def importExtSet : Filing Ref := do
  match (← get).extSet with
  | some id => return id
  | none => allocWith fun id c =>
    { c with
      imports := c.imports ++ [⟨.extInstImport, none, some id, Literal.ofString Builder.extSetName⟩]
      extSet := some id }

def type (decl : TypeDecl) : Filing Ref := do
  match (← get).types.lookup decl with
  | some id => return id
  | none => allocWith fun id c =>
    { c with
      globals := c.globals ++ [decl.inst id]
      types := c.types.insert decl id
      typeDecls := c.typeDecls.insert id decl }

/-- A vector type; a vector of one component is the component. -/
def vectorType (component : Ref) (count : UInt32) : Filing Ref :=
  if count = 1 then return component else type (.vector component count)

def constant (t : Ref) (bits : UInt32) : Filing Ref := do
  match (← get).constants.lookup (t, bits) with
  | some id => return id
  | none => allocWith fun id c =>
    { c with
      globals := c.globals ++ [⟨.constant, some t, some id, [bits]⟩]
      constants := c.constants.insert (t, bits) id
      valueTypes := c.valueTypes.insert id t }

/-- A constant of a scalar type. -/
def scalarConstant (decl : TypeDecl) (bits : UInt32) : Filing Ref := do
  constant (← type decl) bits

def variableOf (storage : Storage) (pointee : Ref) : Filing Ref := do
  let t ← type (.pointer storage pointee)
  allocWith fun id c =>
    { c with
      globals := c.globals ++ [⟨.var, some t, some id, [storage.number]⟩]
      valueTypes := c.valueTypes.insert id t }

/-- Appends an instruction with a result. -/
def emit (opcode : Opcode) (resultType : Ref) (operands : List UInt32) : Filing Ref :=
  allocWith fun id c =>
    { c with
      functions := c.functions ++ [⟨opcode, some resultType, some id, operands⟩]
      valueTypes := c.valueTypes.insert id resultType }

def load (pointer : Ref) : Filing Ref := do
  let c ← get
  emit .load (c.containedType ((c.typeOf? pointer).getD .none)) [pointer.word]

def extract (composite : Ref) (index : UInt32) : Filing Ref := do
  let c ← get
  emit .compositeExtract (c.containedType ((c.typeOf? composite).getD .none)) [composite.word, index]

def insert (object composite : Ref) (index : UInt32) : Filing Ref := do
  let c ← get
  emit .compositeInsert ((c.typeOf? composite).getD .none) [object.word, composite.word, index]

def extInst (t : Ref) (opcode : ExtOpcode) (args : List Ref) : Filing Ref := do
  let set ← importExtSet
  emit .extInst t (set.word :: opcode.number :: args.map Ref.word)

/-- Appends an instruction that opens a function or a block. -/
def frame (i : Ref → Inst) : Filing Ref :=
  allocWith fun id c => { c with functions := c.functions ++ [i id] }

theorem alloc_eq : alloc = allocWith fun _ c => c := by
  funext c
  show alloc c = (alloc c >>= fun r => .ok (r.1, r.2))
  cases alloc c <;> rfl

def beginFunction : Filing Ref := do
  let void ← type .void
  let functionType ← type (.function void)
  let main ← frame fun id => ⟨.function, some void, some id, [0, functionType.word]⟩
  let _ ← frame fun id => { opcode := .label, result := some id }
  return main

end Filing

namespace Catalog

/-! ## What a catalog shows -/

/-- The parts of a catalog are what the one table of a module has. -/
structure Shows (c : Catalog) (b : Builder) : Prop where
  idBound : c.idBound = b.bound
  capabilities : c.capabilities =
    b.capabilities.toList.map fun capability => { opcode := .capability, operands := [capability] }
  imports : c.imports = b.imports
  memoryModel : c.memoryModel =
    if b.memoryModel then [{ opcode := .memoryModel, operands := [0, 1] }] else []
  entryPoints : c.entryPoints = b.entryPoints.toList.map EntryPoint.inst
  executionModes : c.executionModes = b.executionModes.toList.map ExecutionMode.inst
  annotations : c.annotations = b.annotations
  globals : c.globals = b.globals
  functions : c.functions = b.body.toList
  extSet : c.extSet = b.extSet
  types : ∀ decl id, c.types.lookup decl = some id ↔ b.typeDecl? id = some decl
  typeDecls : ∀ id, c.typeDecl? id = b.typeDecl? id
  valueTypes : ∀ id, c.typeOf? id = b.typeOf? id
  constants : ∀ key id, c.constants.lookup key = some id ↔ b.constant? id = some key

theorem Shows.containedType {c : Catalog} {b : Builder} (h : c.Shows b) (t : Ref) :
    c.containedType t = b.containedType t := by
  unfold Catalog.containedType
  rw [h.typeDecls]
  unfold Builder.containedType
  cases b.typeDecl? t with
  | none => rfl
  | some decl => cases decl <;> rfl

theorem Shows.words {c : Catalog} {b : Builder} (h : c.Shows b) : c.words = b.words := by
  unfold Catalog.words Builder.words Builder.header Builder.insts
  rw [h.idBound, h.capabilities, h.imports, h.memoryModel, h.entryPoints, h.executionModes,
    h.annotations, h.globals, h.functions]

end Catalog

/-! ## New definitions -/

theorem Build.fresh_eq (d : Definition) : fresh d = defineWith d fun _ b => b := by
  funext b
  show fresh d b = (fresh d b >>= fun r => .ok (r.1, r.2))
  cases fresh d b <;> rfl

namespace Definition

def typeDecl? : Definition → Option TypeDecl
  | type decl => some decl
  | _ => none

def constant? : Definition → Option (Ref × UInt32)
  | constant t bits => some (t, bits)
  | _ => none

theorem typeDecl?_eq_some {d : Definition} {decl : TypeDecl} :
    d.typeDecl? = some decl ↔ d = .type decl := by
  cases d <;> simp [typeDecl?]

theorem constant?_eq_some {d : Definition} {key : Ref × UInt32} :
    d.constant? = some key ↔ d = .constant key.1 key.2 := by
  cases d <;> simp [constant?, Prod.ext_iff]

end Definition

namespace Builder

variable {b b' : Builder} {d : Definition} {id : Ref}

theorem typeDecl?_eq_bind : b.typeDecl? id = (b.definition? id).bind Definition.typeDecl? := by
  unfold typeDecl?
  cases b.definition? id with
  | none => rfl
  | some d => cases d <;> rfl

theorem constant?_eq_bind : b.constant? id = (b.definition? id).bind Definition.constant? := by
  unfold constant?
  cases b.definition? id with
  | none => rfl
  | some d => cases d <;> rfl

/-- The next id has no definition. -/
theorem Numbered.definition?_next_none (hb : b.Numbered) :
    b.definition? ⟨.ofNat b.definitions.size⟩ = none := by
  unfold definition?
  rw [hb.toNat_next]
  exact Array.getElem?_eq_none (Nat.le_refl _)

/-- A new definition has the next id. -/
theorem Numbered.definition?_push (hb : b.Numbered) (h : b'.definitions = b.definitions.push d) (id : Ref) :
    b'.definition? id = if id = ⟨.ofNat b.definitions.size⟩ then some d else b.definition? id := by
  by_cases hid : id = ⟨.ofNat b.definitions.size⟩
  · rw [if_pos hid, hid, definition?_next h hb.size_lt]
  · have hne : id.word.toNat ≠ b.definitions.size := by
      rw [← hb.toNat_next]
      exact fun h => hid (Ref.word_inj.1 (UInt32.toNat_inj.1 h))
    rw [if_neg hid]
    unfold definition?
    rw [h, Array.getElem?_push, if_neg hne]

/-- What a view of the table has after a new definition. -/
theorem Numbered.view_push {α : Type} (hb : b.Numbered) (h : b'.definitions = b.definitions.push d)
    (f : Definition → Option α) (id : Ref) : (b'.definition? id).bind f =
      if id = ⟨.ofNat b.definitions.size⟩ then f d else (b.definition? id).bind f := by
  rw [hb.definition?_push h]
  split <;> rfl

end Builder

section Entries

variable {α κ : Type} [DecidableEq κ] {next : Ref}

/-- A table by id, with one more entry. -/
theorem lookup_elim_insert {table : AList fun _ : Ref => α} (view : Ref → Option α)
    (h : ∀ id, table.lookup id = view id) (hnext : view next = none) (entry : Option α) (id : Ref) :
    (entry.elim table (table.insert next ·)).lookup id = if id = next then entry else view id := by
  by_cases hid : id = next
  · subst hid
    rw [if_pos rfl]
    cases entry with
    | none => exact (h id).trans hnext
    | some v => exact AList.lookup_insert table
  · rw [if_neg hid, ← h]
    cases entry with
    | none => rfl
    | some v => exact AList.lookup_insert_ne hid

/-- A table of ids, with one more entry under a key that it did not have. -/
theorem lookup_elim_intern {table : AList fun _ : κ => Ref} (view : Ref → Option κ)
    (h : ∀ key id, table.lookup key = some id ↔ view id = some key) (hnext : view next = none)
    {entry : Option κ} (hnew : ∀ key, entry = some key → ∀ id, view id ≠ some key) (key : κ) (id : Ref) :
    (entry.elim table (table.insert · next)).lookup key = some id ↔
      (if id = next then entry else view id) = some key := by
  cases entry with
  | none =>
    rw [show Option.elim none table (table.insert · next) = table from rfl, h]
    split
    · rename_i hid
      rw [hid, hnext]
    · rfl
  | some new =>
    show (table.insert new next).lookup key = some id ↔ _
    by_cases hkey : key = new
    · subst hkey
      rw [AList.lookup_insert]
      split
      · rename_i hid
        simp [hid]
      · rename_i hid
        exact ⟨fun h => absurd (Option.some.inj h).symm hid, fun h => absurd h (hnew key rfl id)⟩
    · rw [AList.lookup_insert_ne hkey, h]
      split
      · rename_i hid
        rw [hid, hnext]
        exact ⟨nofun, fun h => absurd (Option.some.inj h).symm hkey⟩
      · rfl

end Entries

namespace Catalog

variable {b : Builder} {c : Catalog} {d : Definition}

/-- The catalog with one more definition. -/
def record (c : Catalog) (d : Definition) : Catalog :=
  let id : Ref := ⟨c.idBound⟩
  { c with
    idBound := c.idBound + 1
    globals := (d.declaration? id).elim c.globals (c.globals ++ [·])
    types := d.typeDecl?.elim c.types (c.types.insert · id)
    typeDecls := d.typeDecl?.elim c.typeDecls (c.typeDecls.insert id ·)
    valueTypes := d.valueType?.elim c.valueTypes (c.valueTypes.insert id ·)
    constants := d.constant?.elim c.constants (c.constants.insert · id) }

/-- What is entered in every table is shown after a new definition, if types and constants are new. -/
theorem Shows.record (hs : c.Shows b) (hb : b.Tabled)
    (hnew : d.isInterned = true → ∀ i : Nat, b.definitions[i]? ≠ some d) :
    (c.record d).Shows { b with definitions := b.definitions.push d } := by
  have hid : (⟨c.idBound⟩ : Ref) = ⟨.ofNat b.definitions.size⟩ := congrArg Ref.mk hs.idBound
  have hnone {α : Type} (f : Definition → Option α) : (b.definition? ⟨c.idBound⟩).bind f = none := by
    rw [hid, hb.definition?_next_none]
    rfl
  have htable : ({ b with definitions := b.definitions.push d } : Builder).definitions =
      b.definitions.push d := rfl
  have hpush {α : Type} (f : Definition → Option α) := hb.view_push htable f
  have hfresh {α : Type} {f : Definition → Option α} {key : α} (hf : ∀ e, f e = some key → e = d)
      (hd : d.isInterned = true) (id : Ref) : (b.definition? id).bind f ≠ some key := fun h => by
    obtain ⟨e, he, hkey⟩ := Option.bind_eq_some_iff.1 h
    rw [hf e hkey] at he
    exact hnew hd _ he
  refine { hs with
    idBound := ?_, globals := ?_, types := fun decl id => ?_, typeDecls := fun id => ?_
    valueTypes := fun id => ?_, constants := fun key id => ?_ }
  · show c.idBound + 1 = .ofNat (b.definitions.push d).size
    rw [hs.idBound, Array.size_push]
    exact (UInt32.ofNat_add ..).symm
  · rw [Builder.globals_push (b := b) (d := d) rfl, ← hs.globals, ← hid]
    show (d.declaration? _).elim _ _ = _
    cases d.declaration? _ with
    | none => exact (List.append_nil _).symm
    | some i => rfl
  · rw [Builder.typeDecl?_eq_bind, hpush, ← hid]
    refine lookup_elim_intern (fun id => (b.definition? id).bind _) (fun key id => ?_) (hnone _)
      (fun decl hd => ?_) decl id
    · rw [hs.types, Builder.typeDecl?_eq_bind]
    · obtain rfl := Definition.typeDecl?_eq_some.1 hd
      exact hfresh (fun _ => Definition.typeDecl?_eq_some.1) rfl
  · rw [Builder.typeDecl?_eq_bind, hpush, ← hid]
    refine lookup_elim_insert (fun id => (b.definition? id).bind _) (fun id => ?_) (hnone _) _ id
    rw [← Builder.typeDecl?_eq_bind]
    exact hs.typeDecls id
  · show _ = Option.bind _ _
    rw [hpush, ← hid]
    exact lookup_elim_insert b.typeOf? hs.valueTypes (hnone _) _ id
  · rw [Builder.constant?_eq_bind, hpush, ← hid]
    refine lookup_elim_intern (fun id => (b.definition? id).bind _) (fun key id => ?_) (hnone _)
      (fun key hd => ?_) key id
    · rw [hs.constants, Builder.constant?_eq_bind]
    · obtain rfl := Definition.constant?_eq_some.1 hd
      exact hfresh (fun _ => Definition.constant?_eq_some.1) rfl

theorem shows_empty : Shows {} {} := by
  have hnone {α : Type} (f : Definition → Option α) (hf : f .plain = none) (id : Ref) :
      (({} : Builder).definition? id).bind f = none := by
    cases h : ({} : Builder).definition? id with
    | none => rfl
    | some d =>
      rw [Builder.eq_plain_of_empty h]
      exact hf
  refine ⟨rfl, rfl, rfl, rfl, rfl, rfl, rfl, rfl, rfl, rfl, fun decl id => ?_, fun id => ?_,
    fun id => ?_, fun key id => ?_⟩
  · rw [Builder.typeDecl?_eq_bind, hnone _ rfl]
    exact ⟨nofun, nofun⟩
  · rw [Builder.typeDecl?_eq_bind, hnone _ rfl]
    rfl
  · exact (hnone _ rfl id).symm
  · rw [Builder.constant?_eq_bind, hnone _ rfl]
    exact ⟨nofun, nofun⟩

theorem Shows.lookup_type (hs : c.Shows b) (hb : b.Tabled) (decl : TypeDecl) :
    c.types.lookup decl = b.idOf? (.type decl) :=
  Option.ext fun id => by rw [hs.types, hb.idOf?_eq_some rfl, Builder.typeDecl?_eq_some]

theorem Shows.lookup_constant (hs : c.Shows b) (hb : b.Tabled) (t : Ref) (bits : UInt32) :
    c.constants.lookup (t, bits) = b.idOf? (.constant t bits) :=
  Option.ext fun id => by rw [hs.constants, hb.idOf?_eq_some rfl, Builder.constant?_eq_some]

/-! ## Consistency -/

/-- What the parts of a catalog say of each other, whatever ids they refer to. -/
structure Consistent (c : Catalog) : Prop where
  distinct : (resultsOf c.definers).Nodup
  bounded : ∀ id ∈ resultsOf c.definers, 1 ≤ id.word ∧ id.word < c.idBound
  /-- The two tables of types are inverse to each other. -/
  inverse : ∀ decl id, c.types.lookup decl = some id ↔ c.typeDecl? id = some decl
  /-- Each type has one declaration. -/
  declared : ∀ decl id, c.types.lookup decl = some id →
    c.globals.filter (fun i => decl.DeclaredBy i) = [decl.inst id]
  /-- Each pattern has one constant of a type at most. -/
  patterns : ∀ t bits, (c.globals.filter fun i =>
    i.opcode = .constant ∧ i.resultType = some t ∧ i.operands = [bits]).length ≤ 1
  constants : ∀ id t bits, c.constant? id = some (t, bits) ↔
    ⟨.constant, some t, some id, [bits]⟩ ∈ c.globals
  /-- Values are of the type that their only definition has. -/
  values : ∀ id t, c.typeOf? id = some t → ∃ i, c.defining? id = some i ∧ i.resultType = some t ∧
    i.result = some id ∧ ∀ j ∈ c.definers, j.result = some id → j = i
  /-- One set is imported at most. -/
  imported : c.imports.length ≤ 1
  /-- One memory model is set at most. -/
  modelled : c.memoryModel.length ≤ 1

theorem Shows.definers (hs : c.Shows b) : c.definers = b.definers := by
  unfold Catalog.definers Builder.definers
  rw [hs.imports, hs.globals, hs.functions]

/-- Constants are found by their ids. -/
theorem Shows.constant? (hs : c.Shows b) (id : Ref) : c.constant? id = b.constant? id := by
  have hkey {key : Ref × UInt32} :
      (⟨key, id⟩ : Sigma fun _ => Ref) ∈ c.constants.entries ↔ b.constant? id = some key := by
    rw [← AList.mem_lookup_iff, Option.mem_def, hs.constants]
  unfold Catalog.constant?
  cases hfind : c.constants.entries.find? fun entry => entry.2 = id with
  | none =>
    cases hc : b.constant? id with
    | none => rfl
    | some key => exact absurd (decide_eq_true rfl) (List.find?_eq_none.1 hfind _ (hkey.2 hc))
  | some entry =>
    obtain ⟨key, id'⟩ := entry
    have hid := List.find?_some hfind
    obtain rfl : id' = id := of_decide_eq_true hid
    exact (hkey.1 (List.mem_of_find?_eq_some hfind)).symm

theorem Shows.consistent (hs : c.Shows b) (hb : b.Tabled) : c.Consistent where
  distinct := by
    rw [hs.definers]
    exact hb.distinct
  bounded id hid := by
    rw [hs.definers] at hid
    obtain ⟨hzero, hlt⟩ := hb.bounded hid
    have hpos : id.word.toNat ≠ 0 := fun h => hzero (UInt32.toNat_inj.1 h)
    rw [hs.idBound, UInt32.le_iff_toNat_le]
    exact ⟨Nat.pos_of_ne_zero hpos, hlt⟩
  inverse decl id := by rw [hs.types, hs.typeDecls]
  declared decl id h := by
    rw [hs.globals]
    exact hb.declared ((hs.types decl id).1 h)
  patterns t bits := by
    rw [hs.globals]
    exact hb.patterns t bits
  constants id t bits := by
    rw [hs.constant?, hs.globals]
    exact hb.constant_mem
  values id t h := by
    unfold Catalog.defining?
    rw [hs.definers, hs.globals, hs.functions]
    exact hb.typed ((hs.valueTypes id).symm.trans h)
  imported := by
    rw [hs.imports]
    unfold Builder.imports
    rw [List.length_map]
    exact Option.length_toList_le
  modelled := by
    rw [hs.memoryModel]
    split
    · exact Nat.le_refl 1
    · exact Nat.zero_le 1

/-! ## What stays -/

/-- Types, constants and types of values that are entered are the same later. -/
structure Within (c c' : Catalog) : Prop where
  types : ∀ decl id, c.types.lookup decl = some id → c'.types.lookup decl = some id
  typeDecls : ∀ id decl, c.typeDecl? id = some decl → c'.typeDecl? id = some decl
  valueTypes : ∀ id t, c.typeOf? id = some t → c'.typeOf? id = some t
  constants : ∀ key id, c.constants.lookup key = some id → c'.constants.lookup key = some id

theorem Shows.within {c' : Catalog} {b' : Builder} (hs : c.Shows b) (hs' : c'.Shows b')
    (hle : Builder.TableLe b b') : c.Within c' where
  types decl id h := (hs'.types decl id).2 (hle.typeDecl ((hs.types decl id).1 h))
  typeDecls id decl h := by
    rw [hs'.typeDecls]
    exact hle.typeDecl ((hs.typeDecls id).symm.trans h)
  valueTypes id t h := by
    rw [hs'.valueTypes]
    exact hle.typeOf ((hs.valueTypes id).symm.trans h)
  constants key id h := by
    have hconstant := Builder.constant?_eq_some.1 ((hs.constants key id).1 h)
    exact (hs'.constants key id).2 (Builder.constant?_eq_some.2 (hle.definition hconstant))

/-! ## Actions that end alike -/

/-- Both results are the same fault, or the same answer with a tabled module and what shows it. -/
inductive Agree {α : Type} :
    Except Fault (α × Builder) → Except Fault (α × Catalog) → Prop
  | fault (f : Fault) : Agree (.error f) (.error f)
  | done (v : α) {b : Builder} {c : Catalog} (hb : b.Tabled) (hs : c.Shows b) :
      Agree (.ok (v, b)) (.ok (v, c))

namespace Agree

variable {α β : Type} {a : Build α} {e : Filing α} (hb : b.Tabled) (hs : c.Shows b)

theorem bind {f : α → Build β} {g : α → Filing β} (h : Agree (a b) (e c))
    (hf : ∀ v {b' : Builder} {c' : Catalog}, b'.Tabled → c'.Shows b' → Agree (f v b') (g v c')) :
    Agree ((a >>= f) b) ((e >>= g) c) := by
  show Agree (a b >>= fun r => f r.1 r.2) (e c >>= fun r => g r.1 r.2)
  generalize a b = x at h ⊢
  generalize e c = y at h ⊢
  cases h with
  | fault f => exact .fault f
  | done v hb hs => exact hf v hb hs

theorem mapM {f : α → Build β} {g : α → Filing β}
    (h : ∀ v {b : Builder} {c : Catalog}, b.Tabled → c.Shows b → Agree (f v b) (g v c)) (l : List α)
    {b : Builder} {c : Catalog} (hb : b.Tabled) (hs : c.Shows b) :
    Agree (l.mapM f b) (l.mapM g c) := by
  induction l generalizing b c with
  | nil => exact .done [] hb hs
  | cons v l ih =>
    rw [List.mapM_cons, List.mapM_cons]
    exact (h v hb hs).bind fun w _ _ hb hs => (ih hb hs).bind fun ws _ _ hb hs => .done (w :: ws) hb hs

include hb hs

/-- The next id is taken in both, or in neither. -/
theorem allocWith {d : Definition} {f : Ref → Builder → Builder} {g : Ref → Catalog → Catalog}
    {Q : Ref → Builder → Prop} (hd : Builder.recording.Ensures (defineWith d f) b Q)
    (hnew : d.isInterned = true → ∀ i : Nat, b.definitions[i]? ≠ some d)
    (h : (c.record d).Shows { b with definitions := b.definitions.push d } →
      (g ⟨c.idBound⟩ { c with idBound := c.idBound + 1 }).Shows
        (f ⟨c.idBound⟩ { b with definitions := b.definitions.push d })) :
    Agree (defineWith d f b) (Filing.allocWith g c) := by
  have hid : (⟨c.idBound⟩ : Ref) = ⟨.ofNat b.definitions.size⟩ := congrArg Ref.mk hs.idBound
  have hsize : c.idBound.toNat = b.definitions.size :=
    (congrArg (·.word.toNat) hid).trans hb.toNat_next
  show Agree _ (Filing.alloc c >>= fun r => _)
  by_cases hroom : b.definitions.size + 1 < UInt32.size
  · have hrun := defineWith_of_lt d f hroom
    rw [← hid] at hrun
    rw [hrun, show Filing.alloc c = _ from if_pos (hsize ▸ hroom)]
    exact .done _ (hd.result hb hrun).1 (h (hs.record hb hnew))
  · rw [defineWith_of_not_lt d f hroom, show Filing.alloc c = _ from if_neg (hsize ▸ hroom)]
    exact .fault _

theorem fresh {d : Definition} {g : Ref → Catalog → Catalog} (hv : ∀ t, d ≠ .value t)
    (hnew : d.isInterned = true → ∀ i : Nat, b.definitions[i]? ≠ some d)
    (h : g ⟨c.idBound⟩ { c with idBound := c.idBound + 1 } = c.record d) :
    Agree (Build.fresh d b) (Filing.allocWith g c) := by
  have hd := Builder.fresh_records hv hnew
  rw [fresh_eq] at hd ⊢
  refine allocWith hb hs hd hnew fun hrecord => ?_
  rw [h]
  exact hrecord

theorem reserve : Agree (Build.fresh .plain b) (Filing.alloc c) := by
  have h := fresh hb hs (d := .plain) (g := fun _ c => c) (by simp) nofun rfl
  rwa [← Filing.alloc_eq] at h

theorem type (decl : TypeDecl) : Agree (Build.type decl b) (Filing.type decl c) := by
  unfold Build.type Filing.type
  rw [Builder.intern_eq, get_bind_run, hs.lookup_type hb]
  cases hfind : b.idOf? (.type decl) with
  | some id => exact .done id hb hs
  | none => exact fresh hb hs (by simp) (fun _ => Builder.getElem?_ne_of_idOf? hfind) rfl

theorem vectorType (component : Ref) (count : UInt32) :
    Agree (Build.vectorType component count b) (Filing.vectorType component count c) := by
  unfold Build.vectorType Filing.vectorType
  split
  · exact .done component hb hs
  · exact type hb hs _

theorem constant (t : Ref) (bits : UInt32) :
    Agree (intern (.constant t bits) b) (Filing.constant t bits c) := by
  unfold Filing.constant
  rw [Builder.intern_eq, get_bind_run, hs.lookup_constant hb]
  cases hfind : b.idOf? (.constant t bits) with
  | some id => exact .done id hb hs
  | none => exact fresh hb hs (by simp) (fun _ => Builder.getElem?_ne_of_idOf? hfind) rfl

theorem scalarConstant (decl : TypeDecl) (bits : UInt32) :
    Agree ((do intern (.constant (← Build.type decl) bits) : Build Ref) b)
      (Filing.scalarConstant decl bits c) :=
  (type hb hs decl).bind fun t _ _ hb hs => constant hb hs t bits

theorem variableOf (storage : Storage) (pointee : Ref) :
    Agree (Build.variableOf storage pointee b) (Filing.variableOf storage pointee c) :=
  (type hb hs _).bind fun _ _ _ hb hs => fresh hb hs (by simp) nofun rfl

theorem importExtSet : Agree (Build.importExtSet b) (Filing.importExtSet c) := by
  unfold Build.importExtSet Filing.importExtSet
  rw [get_bind_run, get_bind_run, hs.extSet]
  cases hset : b.extSet with
  | some id => exact .done id hb hs
  | none =>
    refine allocWith hb hs (Builder.defineExtSet_records hset) nofun fun h => ?_
    have himports : c.imports = [] := by
      rw [hs.imports, Builder.imports, hset]
      rfl
    exact { h with
      imports := congrArg (· ++ [_]) himports
      extSet := rfl }

/-- An instruction with a result. -/
theorem append {d : Definition} {i : Ref → Inst} {g : Ref → Catalog → Catalog}
    {Q : Ref → Builder → Prop}
    (hd : Builder.recording.Ensures (defineWith d fun id => (·.append (i id))) b Q)
    (hnew : d.isInterned = false)
    (h : g ⟨c.idBound⟩ { c with idBound := c.idBound + 1 } =
      { c.record d with functions := c.functions ++ [i ⟨c.idBound⟩] }) :
    Agree (defineWith d (fun id => (·.append (i id))) b) (Filing.allocWith g c) := by
  refine allocWith hb hs hd (fun h => absurd (hnew.symm.trans h) (by decide)) fun hrecord => ?_
  rw [h]
  refine { hrecord with functions := ?_ }
  show c.functions ++ [_] = (b.body.push _).toList
  rw [Array.toList_push, hs.functions]

theorem emit (op : Opcode) (t : Ref) (operands : List UInt32) :
    Agree (Build.emit op t operands b) (Filing.emit op t operands c) :=
  append hb hs Builder.emit_records rfl rfl

theorem load (pointer : Ref) : Agree (Build.load pointer b) (Filing.load pointer c) := by
  show Agree (Build.emit .load (b.containedType ((b.typeOf? pointer).getD .none)) [pointer.word] b)
    (Filing.emit .load (c.containedType ((c.typeOf? pointer).getD .none)) [pointer.word] c)
  rw [hs.containedType, hs.valueTypes]
  exact emit hb hs ..

theorem extract (composite : Ref) (index : UInt32) :
    Agree (Build.extract composite index b) (Filing.extract composite index c) := by
  show Agree
    (Build.emit .compositeExtract (b.containedType ((b.typeOf? composite).getD .none)) _ b)
    (Filing.emit .compositeExtract (c.containedType ((c.typeOf? composite).getD .none)) _ c)
  rw [hs.containedType, hs.valueTypes]
  exact emit hb hs ..

theorem insert (object composite : Ref) (index : UInt32) :
    Agree (Build.insert object composite index b) (Filing.insert object composite index c) := by
  show Agree (Build.emit .compositeInsert ((b.typeOf? composite).getD .none) _ b)
    (Filing.emit .compositeInsert ((c.typeOf? composite).getD .none) _ c)
  rw [hs.valueTypes]
  exact emit hb hs ..

theorem extInst (t : Ref) (op : ExtOpcode) (args : List Ref) :
    Agree (Build.extInst t op args b) (Filing.extInst t op args c) :=
  (importExtSet hb hs).bind fun _ _ _ hb hs => emit hb hs ..

theorem frame {i : Ref → Inst} (hresult : ∀ id, (i id).result = some id)
    (hframe : ∀ id, (i id).opcode.isFrame) : Agree (Build.frame i b) (Filing.frame i c) :=
  append hb hs (Builder.define_records hresult fun id => .inl ⟨rfl, hframe id⟩) rfl rfl

theorem beginFunction : Agree (Build.beginFunction b) (Filing.beginFunction c) := by
  rw [beginFunction_eq]
  refine (type hb hs _).bind fun _ _ _ hb hs => (type hb hs _).bind fun _ _ _ hb hs => ?_
  refine (frame hb hs (fun _ => rfl) fun _ => rfl).bind fun main _ _ hb hs => ?_
  exact (frame hb hs (fun _ => rfl) fun _ => rfl).bind fun _ _ _ hb hs => .done main hb hs

end Agree

end Catalog

end TextureLift
