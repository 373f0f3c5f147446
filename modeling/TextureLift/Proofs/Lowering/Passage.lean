import TextureLift.Lowering.RegisterFile
import TextureLift.Proofs.Lowering.Instruction

/-!
# Passages of code

What the code does that one action appends, wherever it stands. A passage is a finished module, any
state of the machine, and the number of instructions before the code. It runs the instructions behind
that position under the table of the finished module:

    x.after b    the machine after the part of the code that `b` has

Nothing is asked of the instructions before, and the types of values may be of any width. Actions are
specified by `Passage.quiet`: their code runs to its end, keeps the values that were there and leaves
memory and requests alone. What holds of the machine does so if the finished module is a larger one
(`Passage.Covers`).
-/

namespace TextureLift

open Builder Discipline

/-! ## Passages -/

/-- A run of code that starts anywhere in a module. -/
structure Passage where
  /-- The finished module and its registers. -/
  whole : Emitter
  texels : Texels
  /-- The machine before the code. -/
  start : Machine
  /-- Number of instructions before the code. -/
  position : Nat

namespace Passage

variable {x : Passage} {F : Fault → Prop} {b b' b'' : Builder} {id t : Ref} {k : ScalarKind}
  {bits : List UInt32}

/-- The machine after the code that a module has behind the position. -/
def after (x : Passage) (b : Builder) : Machine :=
  (x.start.steps x.whole.builder x.texels (b.body.toList.drop x.position)).1

/-- The finished module is a larger one. -/
def Covers (x : Passage) (b : Builder) : Prop :=
  TableLe b x.whole.builder

/-- The code runs to its end, and no constant has been given another value. -/
structure Runs (x : Passage) (b : Builder) : Prop where
  done : (x.start.steps x.whole.builder x.texels (b.body.toList.drop x.position)).2 = none
  constants : ∀ id t w, x.whole.builder.definition? id = some (.constant t w) →
    (x.after b).values[id.word]? = none

structure Keeps (x : Passage) (b : Builder) : Prop where
  size : b.definitions.size < UInt32.size
  position : x.position ≤ b.body.size
  runs : x.Covers b → x.Runs b

/-- Code was added that keeps the values that were there and requests nothing. -/
structure Leads (x : Passage) (b b' : Builder) : Prop where
  table : TableLe b b'
  body : ∃ code, b'.body.toList = b.body.toList ++ code
  values : x.Covers b' → ∀ id, (b.definition? id).isSome →
    (x.after b').values[id.word]? = (x.after b).values[id.word]?
  samples : x.Covers b' → (x.after b').samples = (x.after b).samples

/-- The code also writes nothing. -/
structure Quiet (x : Passage) (b b' : Builder) : Prop extends Leads x b b' where
  memory : x.Covers b' → (x.after b').memory = (x.after b).memory

theorem Leads.covers (h : x.Leads b b') (hc : x.Covers b') : x.Covers b :=
  h.table.trans hc

theorem Leads.refl (b : Builder) : x.Leads b b :=
  ⟨TableLe.refl b, ⟨[], by simp⟩, fun _ _ _ => rfl, fun _ => rfl⟩

theorem Leads.trans (h : x.Leads b b') (h' : x.Leads b' b'') : x.Leads b b'' := by
  obtain ⟨code, hcode⟩ := h.body
  obtain ⟨code', hcode'⟩ := h'.body
  refine ⟨h.table.trans h'.table, ⟨code ++ code', by rw [hcode', hcode, List.append_assoc]⟩,
    fun hc id hid => ?_, fun hc => (h'.samples hc).trans (h.samples (h'.covers hc))⟩
  exact (h'.values hc id (h.table.isSome hid)).trans (h.values (h'.covers hc) id hid)

theorem Quiet.refl (b : Builder) : x.Quiet b b :=
  ⟨Leads.refl b, fun _ => rfl⟩

theorem Quiet.trans (h : x.Quiet b b') (h' : x.Quiet b' b'') : x.Quiet b b'' :=
  ⟨h.toLeads.trans h'.toLeads, fun hc => (h'.memory hc).trans (h.memory (h'.covers hc))⟩

/-- Actions whose code computes and writes nothing. -/
def quiet (x : Passage) (F : Fault → Prop) : Discipline Builder where
  keeps := x.Keeps
  leads := x.Quiet
  faults := F
  refl := Quiet.refl
  trans := Quiet.trans

/-- Actions whose code may write. -/
def steady (x : Passage) (F : Fault → Prop) : Discipline Builder where
  keeps := x.Keeps
  leads := x.Leads
  faults := F
  refl := Leads.refl
  trans := Leads.trans

/-! ## Values -/

/-- The id is typed as lanes of a kind, and they are `bits`. -/
structure Holds (x : Passage) (b : Builder) (id : Ref) (k : ScalarKind) (bits : List UInt32) : Prop where
  typed : b.Carries id k bits.length
  value : x.Covers b → (x.after b).value? x.whole.builder id = some (.lanes k bits)

theorem Holds.mono (h : x.Holds b id k bits) (hl : x.Leads b b') : x.Holds b' id k bits := by
  refine ⟨h.typed.mono hl.table, fun hc => ?_⟩
  have hv := h.value (hl.covers hc)
  unfold Machine.value? at hv ⊢
  rw [hl.values hc id h.typed.defined]
  exact hv

theorem Holds.lookup (h : x.Holds b id k bits) (hc : x.Covers b) :
    (x.after b).lookup x.whole.builder id = .ok (.lanes k bits) := by
  unfold Machine.lookup
  rw [h.value hc]

/-- The id is typed as lanes of a kind. Its value has the lanes `bits`, but they may be of another
kind, as in a variable that was written from outside. -/
structure Bears (x : Passage) (b : Builder) (id : Ref) (k : ScalarKind) (bits : List UInt32) : Prop where
  typed : b.Carries id k bits.length
  value : x.Covers b → ∃ v, (x.after b).value? x.whole.builder id = some v ∧ v.bits = bits

theorem Holds.bears (h : x.Holds b id k bits) : x.Bears b id k bits :=
  ⟨h.typed, fun hc => ⟨_, h.value hc, rfl⟩⟩

theorem Bears.mono (h : x.Bears b id k bits) (hl : x.Leads b b') : x.Bears b' id k bits := by
  refine ⟨h.typed.mono hl.table, fun hc => ?_⟩
  have hv := h.value (hl.covers hc)
  unfold Machine.value? at hv ⊢
  rw [hl.values hc id h.typed.defined]
  exact hv

theorem Bears.lookup (h : x.Bears b id k bits) (hc : x.Covers b) :
    ∃ v, (x.after b).lookup x.whole.builder id = .ok v ∧ v.bits = bits := by
  obtain ⟨v, hv, hbits⟩ := h.value hc
  refine ⟨v, ?_, hbits⟩
  unfold Machine.lookup
  rw [hv]

/-! ## Declarations -/

/-- Additions to the table alone change no run. -/
theorem quiet_of_body (hle : TableLe b b') (hbody : b'.body = b.body) : x.Quiet b b' := by
  have hafter : x.after b' = x.after b := by
    unfold after
    rw [hbody]
  refine ⟨⟨hle, ⟨[], by rw [hbody, List.append_nil]⟩, fun _ _ _ => ?_, fun _ => ?_⟩, fun _ => ?_⟩ <;>
    rw [hafter]

theorem Keeps.declare (hk : x.Keeps b) (hle : TableLe b b') (hbody : b'.body = b.body)
    (hsize : b'.definitions.size < UInt32.size) : x.Keeps b' := by
  refine ⟨hsize, by rw [hbody]; exact hk.position, fun hc => ?_⟩
  have hr := hk.runs (hle.trans hc)
  refine ⟨by rw [hbody]; exact hr.done, ?_⟩
  have hafter : x.after b' = x.after b := by
    unfold after
    rw [hbody]
  rw [hafter]
  exact hr.constants

section Declarations

open Build

variable (hF : F .idsExhausted)

include hF

/-- A definition of the next id. -/
theorem fresh_ensures (d : Definition) : (x.quiet F).Ensures (fresh d) b fun id b' =>
    b.definition? id = none ∧ b'.definition? id = some d := by
  by_cases hsize : b.definitions.size + 1 < UInt32.size
  · refine Ensures.of_ok (if_pos hsize) fun hk => ?_
    have hle : TableLe b { b with definitions := b.definitions.push d } := tableLe_push d rfl
    have hid : (UInt32.ofNat b.definitions.size).toNat = b.definitions.size :=
      UInt32.toNat_ofNat_of_lt' hk.size
    refine ⟨hk.declare hle rfl (by simpa using hsize), quiet_of_body hle rfl, ?_,
      definition?_next rfl hk.size⟩
    exact Option.eq_none_iff_forall_ne_some.2 (Environment.next_not_defined hid)
  · exact Ensures.of_error (if_neg hsize) hF

theorem intern_ensures (d : Definition) :
    (x.quiet F).Ensures (intern d) b fun id b' => b'.definition? id = some d := by
  refine Ensures.assume fun hk => Ensures.get_bind ?_
  cases hi : b.definitions.idxOf? d with
  | none => exact (fresh_ensures hF d).imp fun _ _ _ h => h.2
  | some i => exact Ensures.pure _ (definition?_of_idxOf? hk.size hi)

theorem importExtSet_ensures :
    (x.quiet F).Ensures importExtSet b fun id b' => b'.extSet = some id := by
  refine Ensures.get_bind ?_
  cases hset : b.extSet with
  | some id => exact Ensures.pure _ hset
  | none =>
    refine (fresh_ensures hF .plain).bind fun id b₁ _ _ => ?_
    refine Ensures.of_ok (v := id) (t := { b₁ with extSet := some id }) rfl fun hk => ?_
    have hle : TableLe b₁ { b₁ with extSet := some id } := fun _ _ h => h
    exact ⟨hk.declare hle rfl hk.size, quiet_of_body hle rfl, rfl⟩

theorem type_ensures (decl : TypeDecl) :
    (x.quiet F).Ensures (type decl) b fun id b' => b'.typeDecl? id = some decl :=
  (intern_ensures hF _).imp fun _ _ _ h => typeDecl?_eq_some.2 h

/-- A constant holds its bits: no instruction has its id as result. -/
theorem constant_ensures (w : UInt32) (ht : b.typeDecl? t = some k.decl) :
    (x.quiet F).Ensures (intern (.constant t w)) b fun id b' => x.Holds b' id k [w] := by
  refine (intern_ensures hF _).imp_of_keeps fun id b' hk hq hd => ?_
  have hl : b'.Lanes t k 1 := (lanes_of_decl ht).mono hq.table
  refine ⟨⟨t, typeOf?_eq_some.2 ⟨_, hd, rfl⟩, hl⟩, fun hc => ?_⟩
  have hd' : x.whole.builder.definition? id = some (.constant t w) := hc.definition hd
  unfold Machine.value? constantValue?
  rw [(hk.runs hc).constants id t w hd', constant?_eq_some.2 hd']
  show (x.whole.builder.scalarKind? t).bind _ = _
  rw [(hl.mono hc).kind]
  rfl

/-! ## Instructions with a result -/

omit hF in
/-- One more instruction that the machine executes. -/
theorem Keeps.steps_push (hk : x.Keeps b) {i : Inst} {m : Machine}
    (hbody : b'.body = b.body.push i) (hr : x.Runs b)
    (hstep : (x.after b).step x.whole.builder x.texels i = .ok m) :
    x.start.steps x.whole.builder x.texels (b'.body.toList.drop x.position) = (m, none) := by
  have hdrop : b'.body.toList.drop x.position = b.body.toList.drop x.position ++ [i] := by
    rw [hbody, Array.toList_push, List.drop_append_of_le_length (by simpa using hk.position)]
  have hrun : x.start.steps x.whole.builder x.texels (b.body.toList.drop x.position) =
      (x.after b, none) := Prod.ext rfl hr.done
  rw [hdrop, Machine.steps_append _ _ _ _ hrun]
  exact Machine.steps_cons hstep

/-- An instruction that the machine executes defines the next id. -/
theorem emit_step {op : Opcode} {ops : List UInt32} {v : Value}
    (hstep : x.Covers b → ∀ id, (x.after b).step x.whole.builder x.texels ⟨op, some t, some id, ops⟩ =
      .ok ((x.after b).define ⟨op, some t, some id, ops⟩ v)) :
    (x.quiet F).Ensures (emit op t ops) b fun id b' => b'.typeOf? id = some t ∧
      (x.Covers b' → (x.after b').value? x.whole.builder id = some v) := by
  by_cases hsize : b.definitions.size + 1 < UInt32.size
  · have ha := Environment.emit_of_lt op t ops hsize
    generalize hid : (⟨.ofNat b.definitions.size⟩ : Ref) = id at ha
    generalize hi : (⟨op, some t, some id, ops⟩ : Inst) = i at ha
    generalize hb' : ({ b with definitions := b.definitions.push (.value t) } : Builder).append i = b' at ha
    have hpush : b'.definitions = b.definitions.push (.value t) := by rw [← hb']; rfl
    have hbody : b'.body = b.body.push i := by rw [← hb']; rfl
    have hle : TableLe b b' := tableLe_push _ hpush
    refine Ensures.of_ok ha fun hk => ?_
    have hdef : b'.definition? id = some (.value t) := by
      rw [← hid]
      exact definition?_next hpush hk.size
    have hnew : ∀ d, b.definition? id ≠ some d := by
      refine Environment.next_not_defined ?_
      rw [← hid]
      exact UInt32.toNat_ofNat_of_lt' hk.size
    have hsteps (hc : x.Covers b') := hk.steps_push hbody (hk.runs (hle.trans hc))
      (hi ▸ hstep (hle.trans hc) id)
    have hafter (hc : x.Covers b') : x.after b' = (x.after b).define i v := by
      exact congrArg Prod.fst (hsteps hc)
    have hresult : i.result = some id := by rw [← hi]
    refine ⟨⟨?_, ?_, fun hc => ⟨congrArg Prod.snd (hsteps hc), fun id' t' w hd => ?_⟩⟩,
      ⟨⟨hle, ⟨[i], by rw [hbody, Array.toList_push]⟩, fun hc id' hd => ?_, fun hc => ?_⟩,
        fun hc => ?_⟩, typeOf?_eq_some.2 ⟨_, hdef, rfl⟩, fun hc => ?_⟩
    · rw [hpush, Array.size_push]
      exact hsize
    · rw [hbody, Array.size_push]
      exact Nat.le_succ_of_le hk.position
    · -- the result is no constant
      rw [hafter hc, Machine.values_define _ v hresult, if_neg]
      · exact (hk.runs (hle.trans hc)).constants id' t' w hd
      · rintro rfl
        rw [hc.definition hdef] at hd
        cases hd
    · rw [hafter hc, Machine.values_define _ v hresult, if_neg]
      rintro rfl
      obtain ⟨d, hd⟩ := Option.isSome_iff_exists.1 hd
      exact hnew d hd
    · rw [hafter hc, Machine.samples_define]
    · rw [hafter hc, Machine.memory_define]
    · unfold Machine.value?
      rw [hafter hc, Machine.values_define _ v hresult, if_pos rfl]
      rfl
  · exact Ensures.of_error (Environment.emit_of_not_lt op t ops hsize) hF

/-- A load gives the contents of the variable, whatever they are. -/
theorem load_step {pointer p : Ref} {s : Storage} (ht : b.typeOf? pointer = some t)
    (hd : b.typeDecl? t = some (.pointer s p)) :
    (x.quiet F).Ensures (load pointer) b fun id b' => b'.typeOf? id = some p ∧
      (x.Covers b' → (x.after b').value? x.whole.builder id =
        some ((x.after b).read x.whole.builder pointer)) := by
  have hcontained : b.containedType t = p := by
    unfold containedType
    rw [hd]
  refine (typeOrNone_ensures ht).bind fun t' b₁ _ h => ?_
  obtain ⟨rfl, rfl⟩ := h
  rw [← hcontained]
  exact Ensures.get_bind (emit_step hF fun _ _ => rfl)

/-- A computing instruction whose result has lanes. -/
theorem emit_lanes {op : Opcode} {ops : List UInt32} (hop : op.isPure) (ht : b.Lanes t k bits.length)
    (heval : x.Covers b → ∀ id, (x.after b).eval x.whole.builder ⟨op, some t, some id, ops⟩ =
      .ok (.lanes k bits)) :
    (x.quiet F).Ensures (emit op t ops) b fun id b' => x.Holds b' id k bits := by
  refine (emit_step hF fun hc id => Machine.step_of_eval x.texels hop (heval hc id)).imp
    fun id b' hq h => ⟨⟨t, h.1, ht.mono hq.table⟩, h.2⟩

end Declarations

/-- A store replaces what one variable holds. -/
theorem store_ensures {value : Ref} (pointer : Ref) (hv : x.Holds b value k bits) :
    (x.steady F).Ensures (Build.store pointer value) b fun _ b' =>
      x.Covers b → ∀ q, (x.after b').read x.whole.builder q =
        if pointer = q then .lanes k bits else (x.after b).read x.whole.builder q := by
  generalize hb' : b.append (Environment.storeInst pointer value) = b'
  have hle : TableLe b b' := by
    rw [← hb']
    exact TableLe.refl b
  have hbody : b'.body = b.body.push (Environment.storeInst pointer value) := by
    rw [← hb']
    rfl
  refine Ensures.of_ok (v := ()) (t := b') (by rw [← hb']; rfl) fun hk => ?_
  have hsteps (hc : x.Covers b) : x.start.steps x.whole.builder x.texels
      (b'.body.toList.drop x.position) = ((x.after b).write pointer (.lanes k bits), none) := by
    refine hk.steps_push hbody (hk.runs hc) ?_
    exact Machine.bind_ok rfl (Machine.bind_ok (Machine.operand_of_lookup rfl (hv.lookup hc)) rfl)
  have hafter (hc : x.Covers b) : x.after b' = (x.after b).write pointer (.lanes k bits) :=
    congrArg Prod.fst (hsteps hc)
  refine ⟨⟨?_, ?_, fun hc => ⟨congrArg Prod.snd (hsteps (hle.trans hc)), ?_⟩⟩,
    ⟨hle, ⟨[Environment.storeInst pointer value], by rw [hbody, Array.toList_push]⟩, fun hc _ _ => ?_,
      fun hc => ?_⟩, fun hc q => ?_⟩
  · rw [← hb']
    exact hk.size
  · rw [hbody, Array.size_push]
    exact Nat.le_succ_of_le hk.position
  · rw [hafter (hle.trans hc)]
    exact (hk.runs (hle.trans hc)).constants
  · rw [hafter (hle.trans hc)]
    rfl
  · rw [hafter (hle.trans hc)]
    rfl
  · unfold Machine.read Machine.contents?
    rw [hafter hc, Machine.memory_write]
    split <;> rfl

/-- What ids hold in a passage. -/
def reckoning (x : Passage) (hF : F .idsExhausted) : Reckoning where
  quiet := x.quiet F
  Lanes := Builder.Lanes
  Holds := x.Holds
  Bears := x.Bears
  Admits _ := True
  table hq := hq.table
  lanes_of_laneType h := h.lanes
  lanes_of_lanes h := h
  lanes_contained h := h.contained
  lanes_mono h hq := h.mono hq.table
  holds_mono h hq := h.mono hq.toLeads
  bears_mono h hq := h.mono hq.toLeads
  bears_of_holds h := h.bears
  typed_of_bears h := h.typed
  admits_of_le _ := trivial
  type_ensures _ := type_ensures hF _
  constant_ensures ht := constant_ensures hF _ ht
  importExtSet_ensures := importExtSet_ensures hF
  emit_ensures hop _ ht _ heval := emit_lanes hF hop ht fun hc => heval _ _
    ⟨hc, fun h => h.lookup hc, fun h => h.lookup hc⟩

end Passage

end TextureLift
