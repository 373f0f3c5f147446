import TextureLift.Proofs.Machine.Growth
import TextureLift.Proofs.Module.Catalog

/-!
# Modules under any use

`Call` lists the ways in which a module is built, with whatever ids and literals. `Call.run` builds a
module with one table, and `Call.file` builds one whose tables are kept apart. No sequence of calls
brings the tables out of step, as long as there are ids left:

    calls.mapM Call.file {} = .ok (rs, c) → c.Consistent

Calls that look for what they are asked for before they make it come to the same id for good. The step
is one call: `Call.run_records` says what is in the one table afterwards, and `Call.agree` that the
other tables are in step with it. Runs are put together from it as sequences of actions are.
-/

namespace TextureLift

open Build Discipline

/-! ## Calls -/

/-- One use of a module under construction. -/
inductive Call where
  /-- Takes an id that nothing defines. -/
  | reserve
  | capability (capability : UInt32)
  | importExtSet
  | memoryModel
  | type (decl : TypeDecl)
  | vectorType (component : Ref) (count : UInt32)
  | floatConstant (bits : UInt32)
  | uintConstant (bits : UInt32)
  | intConstant (bits : UInt32)
  | variableOf (storage : Storage) (pointee : Ref)
  | decorate (target : Ref) (kind value : UInt32)
  | emit (opcode : Opcode) (resultType : Ref) (operands : List UInt32)
  | load (pointer : Ref)
  | store (pointer value : Ref)
  | construct (type : Ref) (parts : List Ref)
  | extract (composite : Ref) (index : UInt32)
  | insert (object composite : Ref) (index : UInt32)
  | shuffle (type a b : Ref) (lanes : List UInt32)
  | extInst (type : Ref) (opcode : ExtOpcode) (args : List Ref)
  | beginFunction
  | endFunction
  | entryPoint (e : EntryPoint)
  | executionMode (e : ExecutionMode)
  deriving DecidableEq, Repr

namespace Call

/-- Changes the module and returns no id. -/
def change (f : Builder → Builder) : Build (Option Ref) := do
  modify f
  return none

/-- Returns the id of an action. -/
def answer (a : Build Ref) : Build (Option Ref) := do
  return some (← a)

/-- What a call does. -/
def run : Call → Build (Option Ref)
  | reserve => answer (fresh .plain)
  | capability c => change (·.addCapability c)
  | importExtSet => answer Build.importExtSet
  | memoryModel => change Builder.setMemoryModel
  | type decl => answer (Build.type decl)
  | vectorType component count => answer (Build.vectorType component count)
  | floatConstant bits => answer (Build.floatConstant bits)
  | uintConstant bits => answer (Build.uintConstant bits)
  | intConstant bits => answer (Build.intConstant bits)
  | variableOf storage pointee => answer (Build.variableOf storage pointee)
  | decorate target kind value => change (·.decorate ⟨target, kind, value⟩)
  | emit opcode resultType operands => answer (Build.emit opcode resultType operands)
  | load pointer => answer (Build.load pointer)
  | store pointer value => change (·.append { opcode := .store, operands := [pointer.word, value.word] })
  | construct t parts => answer (Build.construct t parts)
  | extract composite index => answer (Build.extract composite index)
  | insert object composite index => answer (Build.insert object composite index)
  | shuffle t x y lanes => answer (Build.shuffle t x y lanes)
  | extInst t opcode args => answer (Build.extInst t opcode args)
  | beginFunction => answer Build.beginFunction
  | endFunction => change Builder.endFunction
  | entryPoint e => change (·.addEntryPoint e)
  | executionMode e => change (·.addExecutionMode e)

/-- Changes the catalog and returns no id. -/
def amend (f : Catalog → Catalog) : Filing (Option Ref) := do
  modify f
  return none

/-- Returns the id of an action on a catalog. -/
def reply (a : Filing Ref) : Filing (Option Ref) := do
  return some (← a)

/-- What a call does to a catalog. A memory model takes the place of the one before. -/
def file : Call → Filing (Option Ref)
  | reserve => reply Filing.alloc
  | capability n => amend fun c =>
    { c with capabilities := c.capabilities ++ [{ opcode := .capability, operands := [n] }] }
  | importExtSet => reply Filing.importExtSet
  | memoryModel => amend ({ · with memoryModel := [{ opcode := .memoryModel, operands := [0, 1] }] })
  | type decl => reply (Filing.type decl)
  | vectorType component count => reply (Filing.vectorType component count)
  | floatConstant bits => reply (Filing.scalarConstant (.float 32) bits)
  | uintConstant bits => reply (Filing.scalarConstant (.int 32 false) bits)
  | intConstant bits => reply (Filing.scalarConstant (.int 32 true) bits)
  | variableOf storage pointee => reply (Filing.variableOf storage pointee)
  | decorate target kind value => amend fun c =>
    { c with annotations := c.annotations ++
        [{ opcode := .decorate, operands := [target.word, kind, value] }] }
  | emit opcode resultType operands => reply (Filing.emit opcode resultType operands)
  | load pointer => reply (Filing.load pointer)
  | store pointer value => amend fun c =>
    { c with functions := c.functions ++
        [{ opcode := .store, operands := [pointer.word, value.word] }] }
  | construct t parts => reply (Filing.emit .compositeConstruct t (parts.map Ref.word))
  | extract composite index => reply (Filing.extract composite index)
  | insert object composite index => reply (Filing.insert object composite index)
  | shuffle t x y lanes => reply (Filing.emit .vectorShuffle t (x.word :: y.word :: lanes))
  | extInst t opcode args => reply (Filing.extInst t opcode args)
  | beginFunction => reply Filing.beginFunction
  | endFunction => amend fun c =>
    { c with functions := c.functions ++ [{ opcode := .ret }] ++ [{ opcode := .functionEnd }] }
  | entryPoint e => amend fun c =>
    { c with entryPoints := c.entryPoints ++ [{
        opcode := .entryPoint
        operands := [e.model, e.function.word] ++ Literal.ofString e.name ++ e.interface.map Ref.word }] }
  | executionMode e => amend fun c =>
    { c with executionModes := c.executionModes ++
        [{ opcode := .executionMode, operands := [e.function.word, e.mode] }] }

/-- Calls that look for what they are asked for before they make it. -/
def finds : Call → Bool
  | importExtSet | type _ | vectorType .. | floatConstant _ | uintConstant _ | intConstant _ => true
  | _ => false

end Call

/-! ## Ids left -/

/-- The action takes at most `n` ids, and it stops only if there are fewer. -/
def Build.Takes {α : Type} (n : Nat) (a : Build α) : Prop :=
  ∀ b : Builder, match a b with
    | .ok (_, b') => b'.definitions.size ≤ b.definitions.size + n
    | .error f => f = .idsExhausted ∧ UInt32.size ≤ b.definitions.size + n

namespace Build.Takes

variable {α β : Type} {a : Build α} {n m : Nat}

theorem pure (v : α) : Takes 0 (Pure.pure v : Build α) :=
  fun _ => Nat.le_refl _

theorem bind {f : α → Build β} (ha : Takes n a) (hf : ∀ v, Takes m (f v)) :
    Takes (n + m) (a >>= f) := by
  intro b
  have hb := ha b
  show match (a b >>= fun r => f r.1 r.2) with
    | .ok (_, b') => _
    | .error f => _
  revert hb
  cases a b with
  | error e =>
    rintro ⟨rfl, hb⟩
    exact ⟨rfl, by omega⟩
  | ok r =>
    intro hb
    have hr := hf r.1 r.2
    revert hr
    show _ → match f r.1 r.2 with
      | .ok (_, b') => _
      | .error f => _
    cases f r.1 r.2 with
    | error e =>
      rintro ⟨rfl, hr⟩
      exact ⟨rfl, by omega⟩
    | ok r' =>
      intro hr
      show _ ≤ _
      omega

theorem mono (ha : Takes n a) (h : n ≤ m) : Takes m a := by
  intro b
  have hb := ha b
  revert hb
  cases a b with
  | error e =>
    rintro ⟨rfl, hb⟩
    exact ⟨rfl, by omega⟩
  | ok r =>
    intro hb
    show _ ≤ _
    omega

/-- The module may be looked at. -/
theorem read {f : Builder → Build α} (hf : ∀ b, Takes n (f b)) : Takes n (get >>= f) :=
  fun b => hf b b

theorem edit {f : Builder → Builder} (h : ∀ b, (f b).definitions = b.definitions) :
    Takes 0 (modify f : Build Unit) := by
  intro b
  show (f b).definitions.size ≤ _
  rw [h]
  exact Nat.le_refl _

theorem fresh (d : Definition) : Takes 1 (fresh d) := by
  intro b
  unfold Build.fresh
  by_cases hsize : b.definitions.size + 1 < UInt32.size
  · rw [if_pos hsize]
    exact Nat.le_of_eq (Array.size_push _)
  · rw [if_neg hsize]
    exact ⟨rfl, Nat.not_lt.1 hsize⟩

theorem defineWith {d : Definition} {f : Ref → Builder → Builder}
    (h : ∀ id b, (f id b).definitions = b.definitions) : Takes 1 (defineWith d f) :=
  (fresh d).bind fun id => (edit (h id)).bind fun _ => pure id

theorem intern (d : Definition) : Takes 1 (intern d) := by
  refine read fun b => ?_
  split
  · exact (pure _).mono (Nat.zero_le 1)
  · exact fresh d

theorem importExtSet : Takes 1 importExtSet := by
  refine read fun b => ?_
  split
  · exact (pure _).mono (Nat.zero_le 1)
  · exact defineWith fun _ _ => rfl

theorem constant (decl : TypeDecl) (bits : UInt32) :
    Takes 2 (do Build.intern (.constant (← type decl) bits)) :=
  (intern _).bind fun _ => intern _

theorem emit {op : Opcode} {t : Ref} {operands : List UInt32} : Takes 1 (emit op t operands) :=
  defineWith fun _ _ => rfl

theorem mapM_of_mem {f : α → Build β} {l : List α} (hf : ∀ v ∈ l, Takes n (f v)) :
    Takes (n * l.length) (l.mapM f) := by
  induction l with
  | nil => exact (pure []).mono (Nat.zero_le _)
  | cons v l ih =>
    rw [List.mapM_cons]
    have hrest := ih fun w hw => hf w (List.mem_cons_of_mem v hw)
    refine ((hf v (List.mem_cons_self ..)).bind fun w => hrest.bind fun ws => pure (w :: ws)).mono ?_
    rw [List.length_cons, Nat.mul_succ]
    omega

theorem mapM {f : α → Build β} (hf : ∀ v, Takes n (f v)) (l : List α) :
    Takes (n * l.length) (l.mapM f) :=
  mapM_of_mem fun v _ => hf v

end Build.Takes

/-- No call takes more than four ids. -/
theorem Call.run_takes (call : Call) : Takes 4 call.run := by
  have hanswer {a : Build Ref} {n : Nat} (ha : Takes n a) (hn : n ≤ 4) : Takes 4 (Call.answer a) :=
    (ha.bind fun _ => .pure _).mono hn
  have hchange {f : Builder → Builder} (hf : ∀ b, (f b).definitions = b.definitions) :
      Takes 4 (Call.change f) :=
    ((Takes.edit hf).bind fun _ => .pure _).mono (by decide)
  cases call with
  | reserve => exact hanswer (.fresh _) (by decide)
  | capability c => exact hchange fun _ => rfl
  | importExtSet => exact hanswer .importExtSet (by decide)
  | memoryModel => exact hchange fun _ => rfl
  | type decl => exact hanswer (.intern _) (by decide)
  | vectorType component count =>
    refine hanswer (n := 1) ?_ (by decide)
    unfold Build.vectorType
    split
    · exact (Takes.pure _).mono (by decide)
    · exact .intern _
  | floatConstant bits => exact hanswer (.constant _ bits) (by decide)
  | uintConstant bits => exact hanswer (.constant _ bits) (by decide)
  | intConstant bits => exact hanswer (.constant _ bits) (by decide)
  | variableOf storage pointee => exact hanswer ((Takes.intern _).bind fun _ => .fresh _) (by decide)
  | decorate target kind value => exact hchange fun _ => rfl
  | emit op t operands => exact hanswer .emit (by decide)
  | load pointer =>
    exact hanswer ((Takes.read fun _ => .pure _).bind fun _ => .read fun _ => .emit) (by decide)
  | store pointer value => exact hchange fun _ => rfl
  | construct t parts => exact hanswer .emit (by decide)
  | extract composite index =>
    exact hanswer ((Takes.read fun _ => .pure _).bind fun _ => .read fun _ => .emit) (by decide)
  | insert object composite index =>
    exact hanswer ((Takes.read fun _ => .pure _).bind fun _ => .emit) (by decide)
  | shuffle t a b lanes => exact hanswer .emit (by decide)
  | extInst t op args => exact hanswer (Takes.importExtSet.bind fun _ => .emit) (by decide)
  | beginFunction =>
    have hframe (i : Ref → Inst) : Takes 1 (frame i) :=
      .defineWith fun _ _ => rfl
    refine hanswer (n := 4) ?_ (by decide)
    rw [beginFunction_eq]
    exact (Takes.intern _).bind fun _ => (Takes.intern _).bind fun _ => (hframe _).bind fun _ =>
      (hframe _).bind fun _ => .pure _
  | endFunction => exact hchange fun _ => rfl
  | entryPoint e => exact hchange fun _ => rfl
  | executionMode e => exact hchange fun _ => rfl

/-! ## One call -/

namespace Call

open Builder

variable {b b' : Builder} {call : Call} {id : Ref}

/-- The constant of a type with a pattern is in the table. -/
def FindsConstant (b : Builder) (decl : TypeDecl) (bits : UInt32) (id : Ref) : Prop :=
  ∃ t, b.definition? t = some (.type decl) ∧ b.definition? id = some (.constant t bits)

/-- What the call asks for is there under an id. -/
def Finds (b : Builder) : Call → Ref → Prop
  | importExtSet, id => b.extSet = some id
  | type decl, id => b.definition? id = some (.type decl)
  | vectorType component count, id => count = 1 ∧ id = component ∨
      count ≠ 1 ∧ b.definition? id = some (.type (.vector component count))
  | floatConstant bits, id => FindsConstant b (.float 32) bits id
  | uintConstant bits, id => FindsConstant b (.int 32 false) bits id
  | intConstant bits, id => FindsConstant b (.int 32 true) bits id
  | _, _ => False

theorem FindsConstant.mono {decl : TypeDecl} {bits : UInt32} (h : FindsConstant b decl bits id)
    (hle : b.Records b') : FindsConstant b' decl bits id := by
  obtain ⟨t, ht, hid⟩ := h
  exact ⟨t, hle.table.definition ht, hle.table.definition hid⟩

/-- What was found is found again. -/
theorem Finds.mono (h : call.Finds b id) (hle : b.Records b') : call.Finds b' id := by
  cases call with
  | importExtSet => exact hle.imported id h
  | type decl => exact hle.table.definition h
  | vectorType component count => exact h.imp_right (And.imp_right hle.table.definition)
  | floatConstant bits => exact FindsConstant.mono h hle
  | uintConstant bits => exact FindsConstant.mono h hle
  | intConstant bits => exact FindsConstant.mono h hle
  | _ => exact h

theorem answer_records {a : Build Ref} {Q : Ref → Builder → Prop} (h : recording.Ensures a b Q) :
    recording.Ensures (answer a) b fun r b' => ∃ id, r = some id ∧ Q id b' :=
  h.bind fun id _ _ hid => Ensures.pure _ ⟨id, rfl, hid⟩

theorem change_records {f : Builder → Builder} (hf : b.Tabled → (f b).Tabled)
    (hdef : (f b).definitions = b.definitions) (hset : (f b).extSet = b.extSet) :
    recording.Ensures (change f) b fun r _ => r = none := by
  refine Ensures.of_ok (v := none) (t := f b) rfl fun hb => ⟨hf hb, ⟨fun i d h => ?_, fun id h => ?_⟩, rfl⟩
  · rw [hdef]
    exact h
  · rw [hset]
    exact h

theorem constant_records {decl : TypeDecl} {bits : UInt32} :
    recording.Ensures (do Build.intern (.constant (← Build.type decl) bits)) b fun id b' =>
      FindsConstant b' decl bits id :=
  (intern_records rfl).bind fun t _ _ ht => (intern_records rfl).imp fun _ _ l hid =>
    ⟨t, l.table.definition ht, hid⟩

/-- A call keeps the module in order, and what it was asked for is there afterwards. -/
theorem run_records (call : Call) : recording.Ensures call.run b fun r b' =>
    call.finds = true → ∃ id, r = some id ∧ call.Finds b' id := by
  have hfound {a : Build Ref} (h : recording.Ensures a b fun id b' => call.Finds b' id) :
      recording.Ensures (answer a) b fun r b' =>
        call.finds = true → ∃ id, r = some id ∧ call.Finds b' id :=
    (answer_records h).imp fun _ _ _ h _ => h
  have hmade {a : Build Ref} (hcall : call.finds = false)
      (h : recording.Ensures a b fun _ _ => True) : recording.Ensures (answer a) b fun r b' =>
        call.finds = true → ∃ id, r = some id ∧ call.Finds b' id :=
    (answer_records h).imp fun _ _ _ _ hf => absurd (hcall.symm.trans hf) (by decide)
  have hchanged {f : Builder → Builder} (hcall : call.finds = false) (hf : b.Tabled → (f b).Tabled)
      (hdef : (f b).definitions = b.definitions) (hset : (f b).extSet = b.extSet) :
      recording.Ensures (change f) b fun r b' =>
        call.finds = true → ∃ id, r = some id ∧ call.Finds b' id :=
    (change_records hf hdef hset).imp fun _ _ _ _ hf => absurd (hcall.symm.trans hf) (by decide)
  cases call with
  | reserve => exact hmade rfl ((fresh_records (by simp) (by simp [Definition.isInterned])).imp
      fun _ _ _ _ => trivial)
  | capability c => exact hchanged rfl (fun hb => { hb with }) rfl rfl
  | importExtSet => exact hfound importExtSet_records
  | memoryModel => exact hchanged rfl (fun hb => { hb with }) rfl rfl
  | type decl => exact hfound (intern_records rfl)
  | vectorType component count =>
    refine hfound ?_
    unfold Build.vectorType
    split
    · exact Ensures.pure _ (.inl ⟨by assumption, rfl⟩)
    · exact (intern_records rfl).imp fun _ _ _ h => .inr ⟨by assumption, h⟩
  | floatConstant bits => exact hfound constant_records
  | uintConstant bits => exact hfound constant_records
  | intConstant bits => exact hfound constant_records
  | variableOf storage pointee =>
    exact hmade rfl ((intern_records rfl).bind fun _ _ _ _ =>
      (fresh_records (by simp) (by simp [Definition.isInterned])).imp fun _ _ _ _ => trivial)
  | decorate target kind value => exact hchanged rfl (fun hb => { hb with }) rfl rfl
  | emit op t operands => exact hmade rfl emit_records
  | load pointer =>
    exact hmade rfl ((Ensures.get_bind (Ensures.pure (Q := fun _ _ => True) _ trivial)).bind
      fun _ _ _ _ => Ensures.get_bind emit_records)
  | store pointer value => exact hchanged rfl (fun hb => hb.append rfl) rfl rfl
  | construct t parts => exact hmade rfl emit_records
  | extract composite index =>
    exact hmade rfl ((Ensures.get_bind (Ensures.pure (Q := fun _ _ => True) _ trivial)).bind
      fun _ _ _ _ => Ensures.get_bind emit_records)
  | insert object composite index =>
    exact hmade rfl ((Ensures.get_bind (Ensures.pure (Q := fun _ _ => True) _ trivial)).bind
      fun _ _ _ _ => emit_records)
  | shuffle t a b lanes => exact hmade rfl emit_records
  | extInst t op args => exact hmade rfl (importExtSet_records.bind fun _ _ _ _ => emit_records)
  | beginFunction => exact hmade rfl beginFunction_records
  | endFunction => exact hchanged rfl (fun hb => (hb.append rfl).append rfl) rfl rfl
  | entryPoint e => exact hchanged rfl (fun hb => { hb with }) rfl rfl
  | executionMode e => exact hchanged rfl (fun hb => { hb with }) rfl rfl

/-! ## Two ways to build -/

variable {c : Catalog}

open Catalog

theorem answer_agree {a : Build Ref} {e : Filing Ref} (h : Agree (a b) (e c)) :
    Agree (answer a b) (reply e c) :=
  h.bind fun id _ _ hb hs => .done (some id) hb hs

theorem change_agree {f : Builder → Builder} {g : Catalog → Catalog} (hb : (f b).Tabled)
    (hs : (g c).Shows (f b)) : Agree (change f b) (amend g c) :=
  .done none hb hs

/-- A call ends alike on a module and on a catalog that shows it. -/
theorem agree (call : Call) (hb : b.Tabled) (hs : c.Shows b) : Agree (call.run b) (call.file c) := by
  have hpush {α : Type} {as : List Inst} {xs : Array α} {f : α → Inst} (h : as = xs.toList.map f) (x : α) :
      as ++ [f x] = (xs.push x).toList.map f := by
    rw [Array.toList_push, List.map_append, h]
    rfl
  have happend {as : List Inst} {xs : Array Inst} (h : as = xs.toList) (x : Inst) :
      as ++ [x] = (xs.push x).toList := by
    rw [Array.toList_push, h]
  cases call with
  | reserve => exact answer_agree (.reserve hb hs)
  | capability n =>
    exact change_agree { hb with } { hs with capabilities := hpush hs.capabilities n }
  | importExtSet => exact answer_agree (.importExtSet hb hs)
  | memoryModel => exact change_agree { hb with } { hs with memoryModel := rfl }
  | type decl => exact answer_agree (.type hb hs decl)
  | vectorType component count => exact answer_agree (.vectorType hb hs component count)
  | floatConstant bits => exact answer_agree (.scalarConstant hb hs _ bits)
  | uintConstant bits => exact answer_agree (.scalarConstant hb hs _ bits)
  | intConstant bits => exact answer_agree (.scalarConstant hb hs _ bits)
  | variableOf storage pointee => exact answer_agree (.variableOf hb hs storage pointee)
  | decorate target kind value =>
    exact change_agree { hb with } { hs with annotations := hpush hs.annotations ⟨target, kind, value⟩ }
  | emit op t operands => exact answer_agree (.emit hb hs op t operands)
  | load pointer => exact answer_agree (.load hb hs pointer)
  | store pointer value =>
    exact change_agree (hb.append rfl) { hs with functions := happend hs.functions _ }
  | construct t parts => exact answer_agree (.emit hb hs ..)
  | extract composite index => exact answer_agree (.extract hb hs composite index)
  | insert object composite index => exact answer_agree (.insert hb hs object composite index)
  | shuffle t x y lanes => exact answer_agree (.emit hb hs ..)
  | extInst t op args => exact answer_agree (.extInst hb hs t op args)
  | beginFunction => exact answer_agree (.beginFunction hb hs)
  | endFunction =>
    exact change_agree ((hb.append rfl).append rfl)
      { hs with functions := happend (happend hs.functions _) _ }
  | entryPoint e =>
    exact change_agree { hb with } { hs with entryPoints := hpush hs.entryPoints e }
  | executionMode e =>
    exact change_agree { hb with } { hs with executionModes := hpush hs.executionModes e }

/-! ## Asking again -/

theorem reply_of_ok {a : Filing Ref} (h : a c = .ok (id, c)) : reply a c = .ok (some id, c) := by
  show (a c >>= fun r => _) = _
  rw [h]
  rfl

theorem type_of_typeDecl? (hs : c.Shows b) {decl : TypeDecl} (h : b.definition? id = some (.type decl)) :
    Filing.type decl c = .ok (id, c) := by
  unfold Filing.type
  rw [get_bind_run, (hs.types decl id).2 (typeDecl?_eq_some.2 h)]
  rfl

theorem scalarConstant_of_findsConstant (hs : c.Shows b) {decl : TypeDecl} {bits : UInt32}
    (h : FindsConstant b decl bits id) : Filing.scalarConstant decl bits c = .ok (id, c) := by
  obtain ⟨t, ht, hid⟩ := h
  show (Filing.type decl c >>= fun r => _) = _
  rw [type_of_typeDecl? hs ht]
  show Filing.constant t bits c = _
  unfold Filing.constant
  rw [get_bind_run, (hs.constants (t, bits) id).2 (constant?_eq_some.2 hid)]
  rfl

/-- What is there is returned, and nothing is added. -/
theorem file_of_finds (hs : c.Shows b) (h : call.Finds b id) : call.file c = .ok (some id, c) := by
  cases call with
  | importExtSet =>
    refine reply_of_ok ?_
    unfold Filing.importExtSet
    rw [get_bind_run, hs.extSet, show b.extSet = some id from h]
    rfl
  | type decl => exact reply_of_ok (type_of_typeDecl? hs h)
  | vectorType component count =>
    refine reply_of_ok ?_
    unfold Filing.vectorType
    rcases h with ⟨hcount, rfl⟩ | ⟨hcount, hid⟩
    · rw [if_pos hcount]
      rfl
    · rw [if_neg hcount]
      exact type_of_typeDecl? hs hid
  | floatConstant bits => exact reply_of_ok (scalarConstant_of_findsConstant hs h)
  | uintConstant bits => exact reply_of_ok (scalarConstant_of_findsConstant hs h)
  | intConstant bits => exact reply_of_ok (scalarConstant_of_findsConstant hs h)
  | _ => exact h.elim

/-! ## All calls -/

variable {c' : Catalog} {calls : List Call} {rs : List (Option Ref)}

theorem runs_records (calls : List Call) : recording.Ensures (calls.mapM run) b fun rs b' =>
    List.Forall₂ (fun call r => call.finds = true → ∃ id, r = some id ∧ call.Finds b' id) calls rs :=
  Ensures.mapM (R := fun (call : Call) r b => call.finds = true → ∃ id, r = some id ∧ call.Finds b id)
    calls (fun _ _ _ _ l h hf => (h hf).imp fun _ hid => ⟨hid.1, hid.2.mono l⟩)
    fun call _ _ _ => call.run_records

theorem runs_agree (calls : List Call) (hb : b.Tabled) (hs : c.Shows b) :
    Agree (calls.mapM run b) (calls.mapM file c) :=
  Agree.mapM (fun call => call.agree) calls hb hs

/-- The module that a catalog shows after some calls. -/
theorem exists_run (hb : b.Tabled) (hs : c.Shows b) (h : calls.mapM file c = .ok (rs, c')) :
    ∃ b', calls.mapM run b = .ok (rs, b') ∧ b'.Tabled ∧ c'.Shows b' := by
  have hagree := runs_agree calls hb hs
  rw [h] at hagree
  generalize calls.mapM run b = x at hagree ⊢
  cases hagree with
  | done v hb hs => exact ⟨_, rfl, hb, hs⟩

/-- Asked again, calls that look for something come to the id of before. -/
theorem file_again (h : calls.mapM file {} = .ok (rs, c)) {before after : List Call} {call : Call}
    (hsplit : calls = before ++ call :: after) (hf : call.finds = true) :
    ∃ r, rs[before.length]? = some r ∧ call.file c = .ok (r, c) := by
  obtain ⟨b, hrun, -, hs⟩ := exists_run tabled_empty shows_empty h
  obtain ⟨-, -, hrs⟩ := (runs_records calls).result tabled_empty hrun
  rw [hsplit] at hrs
  obtain ⟨earlier, later, rfl, hearlier, hlater⟩ := exists_of_forall₂_append hrs
  cases hlater with
  | @cons _ r _ later hr _ =>
    obtain ⟨id, rfl, hid⟩ := hr hf
    refine ⟨some id, ?_, file_of_finds hs hid⟩
    rw [hearlier.length_eq, List.getElem?_append_right (Nat.le_refl _), Nat.sub_self]
    rfl

/-- What was entered at some time stays. -/
theorem entered_of_files (h : calls.mapM file {} = .ok (rs, c)) {before after : List Call}
    (hsplit : calls = before ++ after) :
    ∃ rs' c', before.mapM file {} = .ok (rs', c') ∧ c'.Within c := by
  rw [hsplit, List.mapM_append] at h
  obtain ⟨rs', c', hbefore, h⟩ := exists_of_run_bind h
  obtain ⟨rs'', c'', hafter, h⟩ := exists_of_run_bind h
  obtain ⟨-, rfl⟩ := Prod.mk.inj (Except.ok.inj h)
  obtain ⟨b', -, hb', hs'⟩ := exists_run tabled_empty shows_empty hbefore
  obtain ⟨b, hrun, -, hs⟩ := exists_run hb' hs' hafter
  obtain ⟨-, hrecords, -⟩ := (runs_records after).result hb' hrun
  exact ⟨rs', c', hbefore, hs'.within hs hrecords.table⟩

end Call

/-- The tables of a module stay in step under any use, with whatever ids and literals. A sequence of
calls stops only if it runs out of ids, of which no call takes more than four. Otherwise the tables are
consistent in the end; what was asked for at some time has the same id if it is asked for again, and
nothing is added; types, constants and the types of values that were entered at some time are still the
same; and the module with one table that the calls build gives the same answers and has the same
words. -/
theorem calls_consistent (calls : List Call) :
    (∀ f, calls.mapM Call.file {} = .error f →
      f = .idsExhausted ∧ UInt32.size ≤ 4 * calls.length + 1 ∧ calls.mapM Call.run {} = .error f) ∧
    ∀ rs c, calls.mapM Call.file {} = .ok (rs, c) → c.Consistent ∧
      (∀ before call after, calls = before ++ call :: after → call.finds = true →
        ∃ r, rs[before.length]? = some r ∧ call.file c = .ok (r, c)) ∧
      (∀ before after, calls = before ++ after →
        ∃ rs' c', before.mapM Call.file {} = .ok (rs', c') ∧ c'.Within c) ∧
      ∃ b, calls.mapM Call.run {} = .ok (rs, b) ∧ c.Shows b ∧ c.words = b.words := by
  refine ⟨fun f h => ?_, fun rs c h => ?_⟩
  · have hagree := Call.runs_agree calls Builder.tabled_empty Catalog.shows_empty
    have htakes := Takes.mapM Call.run_takes calls {}
    rw [h] at hagree
    generalize calls.mapM Call.run {} = x at hagree htakes ⊢
    cases hagree with
    | fault f =>
      obtain ⟨hf, hsize⟩ := htakes
      rw [Nat.add_comm] at hsize
      exact ⟨hf, hsize, rfl⟩
  · obtain ⟨b, hrun, hb, hs⟩ := Call.exists_run Builder.tabled_empty Catalog.shows_empty h
    exact ⟨hs.consistent hb, fun _ _ _ hsplit hf => Call.file_again h hsplit hf,
      fun _ _ hsplit => Call.entered_of_files h hsplit, b, hrun, hs, hs.words⟩

/-- Calls that refer to ids of types that are not there, of nothing, or of themselves. -/
def strayCalls : List Call :=
  [.floatConstant 0, .emit .fMul ⟨9⟩ [77, 0], .load ⟨4⟩, .reserve, .variableOf .input ⟨500⟩,
    .type (.vector ⟨8⟩ 3), .memoryModel, .beginFunction, .importExtSet, .memoryModel]

theorem calls_consistent_strayCalls : ∃ rs c, strayCalls.mapM Call.file {} = .ok (rs, c) ∧
    c.Consistent ∧ (Call.floatConstant 0).file c = .ok (some ⟨2⟩, c) := by
  have hfirst : (strayCalls.mapM Call.file {}).toOption.map (·.1[0]?) = some (some (some ⟨2⟩)) := by
    decide +kernel
  cases h : strayCalls.mapM Call.file {} with
  | error f => exact absurd ((calls_consistent strayCalls).1 f h).2.1 (by decide)
  | ok r =>
    obtain ⟨hc, hagain, -⟩ := (calls_consistent strayCalls).2 r.1 r.2 h
    obtain ⟨r₀, hr₀, hfile⟩ := hagain [] (.floatConstant 0) strayCalls.tail rfl rfl
    rw [h] at hfirst
    obtain rfl := Option.some.inj (hr₀.symm.trans (Option.some.inj hfirst))
    exact ⟨r.1, r.2, rfl, hc, hfile⟩

end TextureLift
