import TextureLift.Proofs.Lowering.Slots
import TextureLift.Proofs.Module.Calls

/-!
# Declaring samplers

Each sampler gets a variable of its own with two decorations, and the last sampler of an index is the
one in the table. The types of the variables are shared: there are images of two dimensions and of
three, so that seven types are all that a list of samplers adds to a module. This bounds the ids that
are needed, and samplers are declared unless there are fewer:

    declare descs b = .error f → UInt32.size ≤ b.definitions.size + descs.length + 7

The step is the declaration of one sampler. `Made` is what it keeps, for the samplers up to it; the
ids that are left are counted along with the types that are not there yet, which `missing` counts.
-/

namespace TextureLift

open Build Discipline

namespace Builder

variable {b b' b'' : Builder} {limit : Nat}

/-! ## What is added to a module -/

/-- Types were added, these variables and these decorations, and nothing else. -/
structure Adds (b b' : Builder) (vars : List Ref) (decorations : List Decoration) : Prop where
  globals : ∃ added, b'.globals = b.globals ++ added ∧
    (added.filter (·.opcode = .var)).map Inst.result = vars.map some ∧
    ∀ i ∈ added, i.opcode = .var ∨ ∃ decl id, i = TypeDecl.inst decl id
  decorations : b'.decorations.toList = b.decorations.toList ++ decorations
  rest : b' = { b with definitions := b'.definitions, decorations := b'.decorations }

namespace Adds

variable {vars vars' : List Ref} {decorations decorations' : List Decoration}

theorem refl (b : Builder) : b.Adds b [] [] where
  globals := ⟨[], (List.append_nil _).symm, rfl, by simp⟩
  decorations := (List.append_nil _).symm
  rest := rfl

theorem trans (h : b.Adds b' vars decorations) (h' : b'.Adds b'' vars' decorations') :
    b.Adds b'' (vars ++ vars') (decorations ++ decorations') where
  globals := by
    obtain ⟨added, hglobals, hvars, htypes⟩ := h.globals
    obtain ⟨added', hglobals', hvars', htypes'⟩ := h'.globals
    refine ⟨added ++ added', ?_, ?_, fun i hi => ?_⟩
    · rw [hglobals', hglobals, List.append_assoc]
    · rw [List.filter_append, List.map_append, List.map_append, hvars, hvars']
    · exact (List.mem_append.1 hi).elim (htypes i) (htypes' i)
  decorations := by rw [h'.decorations, h.decorations, List.append_assoc]
  rest := h'.rest.trans (by rw [h.rest])

/-- A type was defined. -/
theorem of_type (decl : TypeDecl) (h : b' = { b with definitions := b.definitions.push (.type decl) }) :
    b.Adds b' [] [] := by
  subst h
  refine ⟨⟨[decl.inst ⟨.ofNat b.definitions.size⟩], globals_push (d := .type decl) rfl, ?_,
    fun i hi => ?_⟩, (List.append_nil _).symm, rfl⟩
  · rw [List.filter_cons_of_neg (by simp [TypeDecl.inst, decl.opcode_ne.2])]
    rfl
  · exact .inr ⟨decl, _, List.mem_singleton.1 hi⟩

/-- A variable was defined. -/
theorem of_var (t : Ref) (s : Storage)
    (h : b' = { b with definitions := b.definitions.push (.var t s) }) :
    b.Adds b' [⟨.ofNat b.definitions.size⟩] [] := by
  subst h
  refine ⟨⟨[⟨.var, some t, some ⟨.ofNat b.definitions.size⟩, [s.number]⟩],
    globals_push (d := .var t s) rfl, rfl, fun i hi => ?_⟩, (List.append_nil _).symm, rfl⟩
  rw [List.mem_singleton.1 hi]
  exact .inl rfl

theorem of_decorate (d : Decoration) : b.Adds (b.decorate d) [] [d] where
  globals := ⟨[], (List.append_nil _).symm, rfl, by simp⟩
  decorations := Array.toList_push
  rest := rfl

end Adds

/-! ## Types made of one another -/

/-- How many types of a chain are not there yet. Each type is made of the one before it. -/
def missing (b : Builder) : List (Ref → TypeDecl) → Ref → Nat
  | [], _ => 0
  | make :: chain, r => (b.idOf? (.type (make r))).elim (chain.length + 1) fun id => b.missing chain id

section Missing

variable {make : Ref → TypeDecl} {chain : List (Ref → TypeDecl)} {r : Ref}

theorem missing_of_some {id : Ref} (h : b.idOf? (.type (make r)) = some id) :
    b.missing (make :: chain) r = b.missing chain id := by
  rw [missing, h]
  rfl

theorem missing_of_none (h : b.idOf? (.type (make r)) = none) :
    b.missing (make :: chain) r = chain.length + 1 := by
  rw [missing, h]
  rfl

theorem missing_le_length (b : Builder) (chain : List (Ref → TypeDecl)) (r : Ref) :
    b.missing chain r ≤ chain.length := by
  induction chain generalizing r with
  | nil => exact Nat.le_refl 0
  | cons make chain ih =>
    cases h : b.idOf? (.type (make r)) with
    | none => exact Nat.le_of_eq (missing_of_none h)
    | some id =>
      rw [missing_of_some h]
      exact Nat.le_succ_of_le (ih id)

theorem missing_of_typeDecl? (hb : b.Tabled) {id : Ref} (h : b.typeDecl? id = some (make r)) :
    b.missing (make :: chain) r = b.missing chain id :=
  missing_of_some ((hb.idOf?_eq_some rfl).2 (typeDecl?_eq_some.1 h))

/-- Types that are there stay there. -/
theorem missing_le (hb : b.Tabled) (hb' : b'.Tabled) (hle : TableLe b b')
    (chain : List (Ref → TypeDecl)) (r : Ref) : b'.missing chain r ≤ b.missing chain r := by
  induction chain generalizing r with
  | nil => exact Nat.le_refl 0
  | cons make chain ih =>
    cases h : b.idOf? (.type (make r)) with
    | none =>
      rw [missing_of_none h]
      exact missing_le_length b' (make :: chain) r
    | some id =>
      have h' := (hb'.idOf?_eq_some rfl).2 (hle.definition (hb.definition?_of_idOf? h))
      rw [missing_of_some h, missing_of_some h']
      exact ih id

end Missing

/-- Each type has one declaration at most. -/
theorem Tabled.length_declared_le (hb : b.Tabled) (decl : TypeDecl) :
    (b.globals.filter fun i => decl.DeclaredBy i).length ≤ 1 := by
  cases h : b.idOf? (.type decl) with
  | some id =>
    rw [hb.declared (typeDecl?_eq_some.2 (hb.definition?_of_idOf? h))]
    exact Nat.le_refl 1
  | none =>
    have hnil : (b.globals.filter fun i => decl.DeclaredBy i) = [] := by
      refine List.filter_eq_nil_iff.2 fun i hi hdecl => ?_
      have hdecl := of_decide_eq_true hdecl
      obtain ⟨id, d, hd, hi⟩ := hb.mem_globals.1 hi
      rcases Definition.of_declaration? hi with ⟨decl', rfl, rfl⟩ | ⟨t, bits, -, rfl⟩ | ⟨t, s, -, rfl⟩
      · obtain rfl := TypeDecl.eq_of_declaredBy_inst hdecl
        exact getElem?_ne_of_idOf? h _ hd
      · exact decl.opcode_ne.1 hdecl.1.symm
      · exact decl.opcode_ne.2 hdecl.1.symm
    rw [hnil]
    exact Nat.zero_le 1

/-! ## Actions that need ids -/

/-- Actions that keep a module in order and have `limit` ids to do with. -/
def supplying (limit : Nat) : Discipline Builder where
  keeps := Tabled
  leads := TableLe
  faults f := f = .idsExhausted ∧ UInt32.size ≤ limit
  refl := TableLe.refl
  trans := TableLe.trans

theorem fresh_supplies {d : Definition} (hroom : b.definitions.size + 1 ≤ limit)
    (hv : ∀ t, d ≠ .value t)
    (hnew : d.isInterned = true → ∀ i : Nat, b.definitions[i]? ≠ some d) :
    (supplying limit).Ensures (fresh d) b fun id b' => id = ⟨.ofNat b.definitions.size⟩ ∧
      b.definition? id = none ∧ b'.definition? id = some d ∧
      b' = { b with definitions := b.definitions.push d } ∧
      b'.definitions.size = b.definitions.size + 1 := by
  by_cases hsize : b.definitions.size + 1 < UInt32.size
  · have hrun : fresh d b = .ok (⟨.ofNat b.definitions.size⟩,
        { b with definitions := b.definitions.push d }) := if_pos hsize
    refine Ensures.of_ok hrun fun hb => ?_
    obtain ⟨hb', hle, hid⟩ := (fresh_records hv hnew).result hb hrun
    exact ⟨hb', hle.table, rfl,
      Option.eq_none_iff_forall_ne_some.2 (Environment.next_not_defined hb.toNat_next), hid, rfl,
      Array.size_push _⟩
  · exact Ensures.of_error (if_neg hsize) ⟨rfl, Nat.le_trans (Nat.not_lt.1 hsize) hroom⟩

/-- The next type of a chain, which is there or takes one of the ids kept for what is missing. -/
theorem type_supplies (make : Ref → TypeDecl) (chain : List (Ref → TypeDecl)) {r : Ref}
    (hroom : b.definitions.size + b.missing (make :: chain) r ≤ limit) :
    (supplying limit).Ensures (type (make r)) b fun id b' =>
      b'.typeDecl? id = some (make r) ∧ b.Adds b' [] [] ∧
      b'.definitions.size + b'.missing chain id ≤
        b.definitions.size + b.missing (make :: chain) r := by
  cases hfind : b.idOf? (.type (make r)) with
  | some id =>
    have hrun : type (make r) b = .ok (id, b) := by
      unfold Build.type
      rw [intern_eq, hfind]
    refine Ensures.of_ok hrun fun hb => ⟨hb, TableLe.refl b, ?_, .refl b, ?_⟩
    · exact typeDecl?_eq_some.2 (hb.definition?_of_idOf? hfind)
    · exact Nat.le_of_eq (by rw [missing_of_some hfind])
  | none =>
    rw [missing_of_none hfind] at hroom ⊢
    have hrun : type (make r) b = fresh (.type (make r)) b := by
      unfold Build.type
      rw [intern_eq, hfind]
    unfold Discipline.Ensures
    rw [hrun]
    refine (fresh_supplies (by omega) (by simp) fun _ => getElem?_ne_of_idOf? hfind).imp
      fun id b' _ h => ?_
    obtain ⟨-, -, hid, hb', hsize⟩ := h
    refine ⟨typeDecl?_eq_some.2 hid, .of_type _ hb', ?_⟩
    have hrest := b'.missing_le_length chain id
    omega

/-- A variable, of which the type of its pointers may be missing. -/
theorem variableOf_supplies (s : Storage) (pointee : Ref)
    (hroom : b.definitions.size + b.missing [.pointer s] pointee + 1 ≤ limit) :
    (supplying limit).Ensures (variableOf s pointee) b fun id b' => b.definition? id = none ∧
      (∃ t, b'.definition? id = some (.var t s) ∧ b'.typeDecl? t = some (.pointer s pointee)) ∧
      b.Adds b' [id] [] ∧
      b'.definitions.size ≤ b.definitions.size + b.missing [.pointer s] pointee + 1 := by
  refine (type_supplies (.pointer s) [] (Nat.le_of_succ_le hroom)).bind fun t b₁ hle h => ?_
  obtain ⟨ht, hadds, hsize⟩ := h
  have hsize : b₁.definitions.size ≤ _ := hsize
  refine (fresh_supplies (by omega) (by simp) (by simp [Definition.isInterned])).imp
    fun id b₂ hle' h => ?_
  obtain ⟨rfl, hnew, hid, hb₂, hsize'⟩ := h
  exact ⟨TableLe.none_of_none hle hnew, ⟨t, hid, TableLe.typeDecl hle' ht⟩,
    hadds.trans (.of_var t s hb₂), by omega⟩

theorem decorate_supplies (target : Ref) (kind value : UInt32) :
    (supplying limit).Ensures (Build.decorate target kind value) b fun _ b' =>
      b' = b.decorate ⟨target, kind, value⟩ :=
  Ensures.of_ok rfl fun hb => ⟨{ hb with }, TableLe.refl b, rfl⟩

/-! ## One sampler -/

/-- The id is a variable of a sampled image of single-precision floats. -/
def SamplesFloats (b : Builder) (id : Ref) (dim : ImageDim) : Prop :=
  ∃ t sampled image float, b.definition? id = some (.var t .uniformConstant) ∧
    b.typeDecl? t = some (.pointer .uniformConstant sampled) ∧
    b.typeDecl? sampled = some (.sampledImage image) ∧
    b.typeDecl? image = some (.image float dim) ∧ b.typeDecl? float = some (.float 32)

theorem SamplesFloats.mono {id : Ref} {dim : ImageDim} (h : b.SamplesFloats id dim)
    (hle : TableLe b b') : b'.SamplesFloats id dim := by
  obtain ⟨t, sampled, image, float, hid, ht, hsampled, himage, hfloat⟩ := h
  exact ⟨t, sampled, image, float, hle.definition hid, hle.typeDecl ht, hle.typeDecl hsampled,
    hle.typeDecl himage, hle.typeDecl hfloat⟩

/-- The types of a variable that holds an image, from the type of a texel's components. -/
def imageChain (dim : ImageDim) : List (Ref → TypeDecl) :=
  [(.image · dim), .sampledImage, .pointer .uniformConstant]

/-- How many types of images are not there yet. -/
def missingImages (b : Builder) (float : Ref) : Nat :=
  b.missing (imageChain .two) float + b.missing (imageChain .three) float

theorem missingImages_le (b : Builder) (float : Ref) : b.missingImages float ≤ 6 :=
  Nat.add_le_add (b.missing_le_length _ float) (b.missing_le_length _ float)

theorem missing_le_missingImages {dim : ImageDim} (hdim : dim = .two ∨ dim = .three) (float : Ref) :
    b.missing (imageChain dim) float ≤ b.missingImages float := by
  unfold missingImages
  rcases hdim with rfl | rfl <;> omega

/-- After a variable has been declared, no type of its image is missing. -/
theorem SamplesFloats.missing_eq_zero {id float : Ref} {dim : ImageDim} (h : b.SamplesFloats id dim)
    (hb : b.Tabled) (hfloat : b.typeDecl? float = some (.float 32)) :
    b.missing (imageChain dim) float = 0 := by
  obtain ⟨t, sampled, image, float', -, ht, hsampled, himage, hfloat'⟩ := h
  obtain rfl : float' = float :=
    hb.eq_of_definition? rfl (typeDecl?_eq_some.1 hfloat') (typeDecl?_eq_some.1 hfloat)
  unfold imageChain
  rw [missing_of_typeDecl? hb himage, missing_of_typeDecl? hb hsampled, missing_of_typeDecl? hb ht]
  rfl

/-- The types of one image take the ids that were kept for them, and those of the other are still
kept. -/
theorem missingImages_step (hb : b.Tabled) (hb' : b'.Tabled) (hle : TableLe b b') {float : Ref}
    {dim : ImageDim} (hdim : dim = .two ∨ dim = .three)
    (hnone : b'.missing (imageChain dim) float = 0)
    (hsize : b'.definitions.size ≤ b.definitions.size + b.missing (imageChain dim) float + 1) :
    b'.definitions.size + b'.missingImages float ≤
      b.definitions.size + b.missingImages float + 1 := by
  have htwo := missing_le hb hb' hle (imageChain .two) float
  have hthree := missing_le hb hb' hle (imageChain .three) float
  unfold missingImages
  rcases hdim with rfl | rfl <;> omega

end Builder

namespace SamplerTable

open Builder

variable {b b' b'' : Builder} {limit : Nat}

/-- The entry of a sampler. -/
def entry (d : SamplerDesc) (id : Ref) : SamplerInfo where
  id := id
  componentCount :=
    if d.componentCount < 1 then 1 else if 4 < d.componentCount then 4 else d.componentCount
  encoding := d.encoding
  dimension := d.dimension

/-- What says where the image of a sampler is found. -/
def decorationsOf (d : SamplerDesc) (id : Ref) : List Decoration :=
  [⟨id, Decoration.binding, d.index⟩, ⟨id, Decoration.descriptorSet, 0⟩]

theorem imageDim_eq (dimension : UInt8) : imageDim dimension = .two ∨ imageDim dimension = .three := by
  unfold imageDim
  split
  · exact .inr rfl
  · exact .inl rfl

/-- One sampler takes the ids of its types that are missing, and one for its variable. -/
theorem declareOne_supplies {float : Ref} (hfloat : b.typeDecl? float = some (.float 32))
    (d : SamplerDesc)
    (hroom : b.definitions.size + b.missing (imageChain (imageDim d.dimension)) float + 1 ≤ limit) :
    (supplying limit).Ensures (declareOne float d) b fun info b' => ∃ id, info = entry d id ∧
      b.definition? id = none ∧ b'.SamplesFloats id (imageDim d.dimension) ∧
      b.Adds b' [id] (decorationsOf d id) ∧
      b'.definitions.size ≤
        b.definitions.size + b.missing (imageChain (imageDim d.dimension)) float + 1 := by
  unfold imageChain at hroom ⊢
  refine (type_supplies (.image · _) _ (Nat.le_of_succ_le hroom)).bind fun image b₁ hle₁ h₁ => ?_
  obtain ⟨himage, hadds₁, hsize₁⟩ := h₁
  refine (type_supplies .sampledImage [.pointer .uniformConstant] (by omega)).bind
    fun sampled b₂ hle₂ h₂ => ?_
  obtain ⟨hsampled, hadds₂, hsize₂⟩ := h₂
  refine (variableOf_supplies .uniformConstant sampled (by omega)).bind fun id b₃ hle₃ h₃ => ?_
  obtain ⟨hnew, ⟨t, hid, ht⟩, hadds₃, hsize₃⟩ := h₃
  refine (decorate_supplies id Decoration.binding d.index).bind fun _ b₄ _ h₄ => ?_
  refine (decorate_supplies id Decoration.descriptorSet 0).bind fun _ b₅ _ h₅ => ?_
  subst h₄ h₅
  have hle₁₃ : TableLe b₁ b₃ := TableLe.trans hle₂ hle₃
  refine Ensures.pure _ ⟨id, ?_, ?_, ?_, ?_, ?_⟩
  · unfold entry
    rw [clampCount_eq]
  · exact TableLe.none_of_none (TableLe.trans hle₁ hle₂) hnew
  · exact ⟨t, sampled, image, float, hid, ht, TableLe.typeDecl hle₃ hsampled,
      hle₁₃.typeDecl himage, (TableLe.trans hle₁ hle₁₃).typeDecl hfloat⟩
  · exact ((hadds₁.trans hadds₂).trans hadds₃).trans ((Adds.of_decorate _).trans (.of_decorate _))
  · show b₃.definitions.size ≤ _
    omega

/-! ## All samplers -/

/-- What there is after some samplers, each with its variable, have been declared. -/
structure Made (b : Builder) (made : List (SamplerDesc × Ref)) (t : SamplerTable) (b' : Builder) :
    Prop where
  table : TableLe b b'
  /-- The last sampler of an index is in the table. -/
  entries : ∀ index, t.get? index =
    (made.reverse.find? (·.1.index = index)).map fun x => entry x.1 x.2
  fresh : ∀ x ∈ made, b.definition? x.2 = none
  distinct : (made.map Prod.snd).Nodup
  images : ∀ x ∈ made, b'.SamplesFloats x.2 (if 3 ≤ x.1.dimension then .three else .two)
  added : b.Adds b' (made.map Prod.snd) (made.flatMap fun x => decorationsOf x.1 x.2)

namespace Made

variable {made : List (SamplerDesc × Ref)} {t : SamplerTable}

theorem nil (hle : TableLe b b') (hadds : b.Adds b' [] []) : Made b [] {} b' where
  table := hle
  entries index := by simp [get?]
  fresh := by simp
  distinct := List.nodup_nil
  images := by simp
  added := hadds

/-- The step: another sampler, with a variable that was not there. -/
theorem snoc (h : Made b made t b') (hle : TableLe b' b'') {d : SamplerDesc} {id : Ref}
    (hnew : b'.definition? id = none) (himage : b''.SamplesFloats id (imageDim d.dimension))
    (hadds : b'.Adds b'' [id] (decorationsOf d id)) :
    Made b (made ++ [(d, id)]) (t.insert d.index (entry d id)) b'' where
  table := h.table.trans hle
  entries index := by
    rw [get?_insert, List.reverse_append, List.reverse_singleton, List.singleton_append,
      List.find?_cons]
    by_cases hi : d.index = index
    · rw [if_pos hi, decide_eq_true hi]
      rfl
    · rw [if_neg hi, decide_eq_false hi]
      exact h.entries index
  fresh := List.forall_mem_append.2 ⟨h.fresh, fun x hx => by
    rw [List.mem_singleton.1 hx]
    exact h.table.none_of_none hnew⟩
  distinct := by
    rw [List.map_append]
    refine List.nodup_append.2 ⟨h.distinct, List.nodup_singleton id, fun r hr r' hr' => ?_⟩
    obtain ⟨x, hx, rfl⟩ := List.mem_map.1 hr
    obtain ⟨_, _, _, _, hdef, -⟩ := h.images x hx
    rintro rfl
    rw [List.mem_singleton.1 hr', hnew] at hdef
    cases hdef
  images := List.forall_mem_append.2 ⟨fun x hx => (h.images x hx).mono hle, fun x hx => by
    rw [List.mem_singleton.1 hx]
    exact himage⟩
  added := by
    rw [List.map_append, List.flatMap_append]
    exact h.added.trans hadds

end Made

/-- The run: with ids for the types that are missing and for the samplers that are left, these are
declared after those that are `made`. -/
theorem foldlM_supplies {start : Builder} {float : Ref} (descs : List SamplerDesc)
    {made : List (SamplerDesc × Ref)} {t : SamplerTable}
    (hfloat : b.typeDecl? float = some (.float 32)) (h : Made start made t b)
    (hroom : b.definitions.size + b.missingImages float + descs.length ≤ limit) :
    (supplying limit).Ensures
      (descs.foldlM (fun table d => return table.insert d.index (← declareOne float d)) t) b
      fun t' b' => ∃ rest, rest.map Prod.fst = descs ∧ Made start (made ++ rest) t' b' := by
  induction descs generalizing b made t with
  | nil => exact Ensures.pure t ⟨[], rfl, by rwa [List.append_nil]⟩
  | cons d descs ih =>
    have hdim := imageDim_eq d.dimension
    rw [List.length_cons] at hroom
    rw [List.foldlM_cons, bind_assoc]
    refine Ensures.assume fun hb => ?_
    have hchain := missing_le_missingImages (b := b) hdim float
    refine ((declareOne_supplies hfloat d (by omega)).imp_of_keeps
      fun info b' hb' hle h => And.intro hb' h).bind fun info b' hle h' => ?_
    obtain ⟨hb', id, rfl, hnew, himage, hadds, hsize⟩ := h'
    have hle : TableLe b b' := hle
    have hfloat' := hle.typeDecl hfloat
    have hleft := missingImages_step hb hb' hle hdim (himage.missing_eq_zero hb' hfloat') hsize
    rw [pure_bind]
    refine (ih hfloat' (h.snoc hle hnew himage hadds) (by omega)).imp fun t' b'' _ h'' => ?_
    obtain ⟨rest, rfl, hmade⟩ := h''
    exact ⟨(d, id) :: rest, rfl, by rwa [List.append_assoc] at hmade⟩

theorem declare_supplies (descs : List SamplerDesc)
    (hroom : b.definitions.size + descs.length + 7 ≤ limit) :
    (supplying limit).Ensures (declare descs) b fun t b' =>
      ∃ made, made.map Prod.fst = descs ∧ Made b made t b' := by
  have hone := b.missing_le_length [fun _ => .float 32] .none
  rw [List.length_singleton] at hone
  refine (type_supplies (fun _ => .float 32) [] (r := .none) (by omega)).bind fun float b₁ hle h => ?_
  obtain ⟨hfloat, hadds, hsize⟩ := h
  have hsize : b₁.definitions.size ≤ _ := hsize
  have himages := b₁.missingImages_le float
  exact foldlM_supplies descs hfloat (.nil hle hadds) (by omega)

namespace Made

variable {made : List (SamplerDesc × Ref)} {t : SamplerTable}

/-- The sampler of an entry. -/
theorem exists_of_get? (h : Made b made t b') {index : UInt32} {info : SamplerInfo}
    (hget : t.get? index = some info) :
    ∃ x ∈ made, x.1.index = index ∧ info = entry x.1 x.2 := by
  rw [h.entries] at hget
  obtain ⟨x, hx, rfl⟩ := Option.map_eq_some_iff.1 hget
  have hindex := List.find?_some hx
  exact ⟨x, List.mem_reverse.1 (List.mem_of_find?_eq_some hx), of_decide_eq_true hindex, rfl⟩

theorem mem_keys_iff (h : Made b made t b') (index : UInt32) :
    index ∈ t.toList.map Prod.fst ↔ ∃ d ∈ made.map Prod.fst, d.index = index := by
  unfold toList
  rw [Std.ExtTreeMap.map_fst_toList_eq_keys, Std.ExtTreeMap.mem_keys,
    Std.ExtTreeMap.mem_iff_isSome_getElem?]
  show (t.get? index).isSome ↔ _
  rw [h.entries, Option.isSome_map, List.find?_isSome]
  simp

/-- The variables of two entries differ. -/
theorem index_inj (h : Made b made t b') {index index' : UInt32} {info info' : SamplerInfo}
    (hget : t.get? index = some info) (hget' : t.get? index' = some info') (hid : info.id = info'.id) :
    index = index' := by
  obtain ⟨x, hx, rfl, rfl⟩ := h.exists_of_get? hget
  obtain ⟨x', hx', rfl, rfl⟩ := h.exists_of_get? hget'
  rw [List.inj_on_of_nodup_map h.distinct hx hx' hid]

theorem decorated (h : Made b made t b') {index : UInt32} {info : SamplerInfo}
    (hget : t.get? index = some info) :
    ⟨info.id, Decoration.binding, index⟩ ∈ b'.decorations ∧
      ⟨info.id, Decoration.descriptorSet, 0⟩ ∈ b'.decorations := by
  obtain ⟨x, hx, rfl, rfl⟩ := h.exists_of_get? hget
  have hmem {d : Decoration} (hd : d ∈ decorationsOf x.1 x.2) : d ∈ b'.decorations := by
    rw [← Array.mem_toList_iff, h.added.decorations]
    exact List.mem_append_right _ (List.mem_flatMap.2 ⟨x, hx, hd⟩)
  exact ⟨hmem (.head _), hmem (.tail _ (.head _))⟩

end Made

theorem keys_ascending (t : SamplerTable) : (t.toList.map Prod.fst).Pairwise (· < ·) := by
  unfold toList
  rw [Std.ExtTreeMap.map_fst_toList_eq_keys]
  exact Std.ExtTreeMap.ordered_keys.imp fun h => Std.compare_eq_lt.1 h

/-- Samplers are declared in any module whose table is in order, unless there are too few ids: one for
each sampler and seven for types. `made` has the samplers with their variables, which are new and all
different. The table has the indices of the samplers, each with the last sampler of the index and a
variable that is bound to it, and no type is declared twice. -/
theorem declare_makes {b : Builder} (hb : b.Tabled) (descs : List SamplerDesc) :
    (∀ f, declare descs b = .error f →
      f = .idsExhausted ∧ UInt32.size ≤ b.definitions.size + descs.length + 7) ∧
    ∀ t b', declare descs b = .ok (t, b') → ∃ made, made.map Prod.fst = descs ∧ Made b made t b' ∧
      (t.toList.map Prod.fst).Pairwise (· < ·) ∧
      (∀ index, index ∈ t.toList.map Prod.fst ↔ ∃ d ∈ descs, d.index = index) ∧
      (∀ index info, t.get? index = some info →
        ⟨info.id, Decoration.binding, index⟩ ∈ b'.decorations ∧
        ⟨info.id, Decoration.descriptorSet, 0⟩ ∈ b'.decorations ∧
        ∀ index' info', t.get? index' = some info' → info.id = info'.id → index = index') ∧
      b'.Tabled ∧ ∀ decl : TypeDecl, (b'.globals.filter fun i => decl.DeclaredBy i).length ≤ 1 := by
  have hspec : (supplying _).Ensures (declare descs) b _ := declare_supplies descs (Nat.le_refl _)
  refine ⟨fun f hrun => hspec.fault hb hrun, fun t b' hrun => ?_⟩
  obtain ⟨hb', -, made, rfl, hmade⟩ := hspec.result hb hrun
  refine ⟨made, rfl, hmade, t.keys_ascending, hmade.mem_keys_iff, fun index info hget => ?_, hb',
    hb'.length_declared_le⟩
  obtain ⟨hbinding, hset⟩ := hmade.decorated hget
  exact ⟨hbinding, hset, fun index' info' hget' hid => hmade.index_inj hget hget' hid⟩

/-- Two samplers of one index, with counts and dimensions outside the ranges that there are. -/
def rebound : List SamplerDesc :=
  [⟨3, 0, .u8, 2⟩, ⟨7, 9, .f16, 5⟩, ⟨3, 2, .f32, 0⟩]

theorem declare_makes_rebound : ∃ t b', declare rebound {} = .ok (t, b') ∧
    t.get? 3 = some ⟨⟨10⟩, 2, .f32, 0⟩ ∧ t.get? 7 = some ⟨⟨9⟩, 4, .f16, 5⟩ ∧
    5 ∉ t.toList.map Prod.fst ∧ ⟨⟨10⟩, Decoration.binding, 3⟩ ∈ b'.decorations ∧
    ⟨⟨9⟩, Decoration.descriptorSet, 0⟩ ∈ b'.decorations := by
  have heval : (declare rebound {}).toOption.map (fun r => [r.1.get? 3, r.1.get? 7]) =
      some [some ⟨⟨10⟩, 2, .f32, 0⟩, some ⟨⟨9⟩, 4, .f16, 5⟩] := by decide +kernel
  cases hrun : declare rebound {} with
  | error f => exact absurd ((declare_makes tabled_empty rebound).1 f hrun).2 (by decide)
  | ok r =>
    obtain ⟨made, -, -, -, hkeys, hentries, -⟩ :=
      (declare_makes tabled_empty rebound).2 r.1 r.2 hrun
    rw [hrun] at heval
    obtain ⟨hthree, hseven⟩ := List.cons.inj (Option.some.inj heval)
    have hseven := (List.cons.inj hseven).1
    refine ⟨r.1, r.2, rfl, hthree, hseven, ?_, (hentries 3 _ hthree).1, (hentries 7 _ hseven).2.1⟩
    rw [hkeys]
    decide

end SamplerTable

end TextureLift
