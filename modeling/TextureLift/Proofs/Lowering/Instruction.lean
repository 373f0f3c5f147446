import TextureLift.Proofs.Lowering.Declaration
import TextureLift.Proofs.Lowering.Reckoning

/-!
# Instructions in a whole run

An instruction that the machine executes after the code so far can be appended to it, which keeps the
module sound. Hence the specifications of instructions hold for the run of a module from its start
(`Environment.reckoning`).
-/

namespace TextureLift

open Builder

namespace Environment

open Build Discipline Number

variable {e : Environment} {F : Fault → Prop} {b : Builder}

/-! ## Instructions with a result -/

/-- Ids with a value are in the table. -/
theorem Runs.defined_of_value (hr : e.Runs b) {id : Ref} {v : Value}
    (hv : (e.after b).value? b id = some v) : ∃ d, b.definition? id = some d := by
  unfold Machine.value? at hv
  cases hm : (e.after b).values[id.word]? with
  | some w =>
    obtain ⟨t, ht⟩ := hr.known id w hm
    exact ⟨_, ht⟩
  | none =>
    rw [hm] at hv
    obtain ⟨⟨t, bits⟩, hc, -⟩ := Option.bind_eq_some_iff.1 hv
    exact ⟨_, constant?_eq_some.1 hc⟩

section

variable (op : Opcode) (t : Ref) (ops : List UInt32)

theorem emit_of_lt (hsize : b.definitions.size + 1 < UInt32.size) : emit op t ops b =
    .ok (⟨.ofNat b.definitions.size⟩,
      ({ b with definitions := b.definitions.push (.value t) } : Builder).append
        ⟨op, some t, some ⟨.ofNat b.definitions.size⟩, ops⟩) :=
  defineWith_of_lt (.value t) _ hsize

theorem emit_of_not_lt (hsize : ¬ b.definitions.size + 1 < UInt32.size) :
    emit op t ops b = .error .idsExhausted :=
  defineWith_of_not_lt (.value t) _ hsize

end

/-- An instruction that the machine executes and whose operands are in scope. -/
theorem emit_steady (hF : F .idsExhausted) {op : Opcode} {t : Ref} {ops : List UInt32} {v : Value}
    (samples : Array SampleCall) (hop : op.yields) (hshort : ops.length ≤ 8)
    (ht : b.Typing (.value t))
    (hscope : Usable b (Inst.mk op (some t) none ops).idWords)
    (hv : v.HasType b t)
    (hstep : e.Fits b → ∀ id, (e.after b).step b e.texels ⟨op, some t, some id, ops⟩ =
      .ok ({ e.after b with samples }.define ⟨op, some t, some id, ops⟩ v)) :
    (e.steady F).Ensures (emit op t ops) b fun id b' => b'.typeOf? id = some t ∧
      b'.stores = b.stores ∧ (e.Fits b' → (e.after b').value? b' id = some v ∧
        (e.after b').memory = (e.after b).memory ∧ (e.after b').samples = samples) := by
  by_cases hsize : b.definitions.size + 1 < UInt32.size
  · have ha := emit_of_lt op t ops hsize
    -- the next id and the instruction that it is the result of
    generalize hid : (⟨.ofNat b.definitions.size⟩ : Ref) = id at ha
    generalize hi : (⟨op, some t, some id, ops⟩ : Inst) = i
    generalize hb' : ({ b with definitions := b.definitions.push (.value t) } : Builder).append i = b'
    have hpush : b'.definitions = b.definitions.push (.value t) := by rw [← hb']; rfl
    have hle := tableLe_push _ hpush
    refine Ensures.of_ok (v := id) (t := b') ?_ fun hs => ?_
    · rw [ha, ← hb', ← hi]
    · have hacc : b.Accepts i := by
        refine ⟨fun t' h => ?_, fun w hw => ?_⟩
        · rw [← hi] at h
          obtain rfl := Option.some.inj h
          exact ht.typeDecl_isSome
        · rw [← hi] at hw
          rcases hscope w hw with h | h
          · exact hs.wellFormed.inScope_of_typeOf h
          · exact .inr (.inl h)
      have hadm : b.Admits (.value t) := ⟨hsize, by simpa [Definition.refs] using ht.typeDecl_isSome, ht⟩
      have hir : i.result = some id := by rw [← hi]
      obtain ⟨hs', hafter⟩ := hs.emit hadm hacc (by rw [hir, hid]) (by rw [← hi])
        (by rw [← hi]; exact hop) hv
        (fun hf => by rw [← hi]; exact hstep hf id) hb'.symm
      have hdef : b'.definition? id = some (.value t) := by
        rw [← hid]
        exact definition?_next hpush hs.wellFormed.size_lt
      have hextends : b.Extends b' := ⟨hle, by rw [← hb']; rfl, fun d hd => by rw [← hb']; exact hd⟩
      refine ⟨hs', ⟨⟨hextends, [i], ?_, ?_⟩, fun hf => hf.anti hs.wellFormed hle,
        fun hf id' w hw => ?_⟩, typeOf?_eq_some.2 ⟨_, hdef, rfl⟩, ?_, fun hf => ⟨?_, ?_, ?_⟩⟩
      · rw [← hb']
        exact Array.toList_push
      · intro j hj
        rw [List.mem_singleton.1 hj, ← hi]
        exact ⟨by simp [Opcode.isCode, hop], Inst.formed_of_yields hop hshort⟩
      · -- earlier ids are not the next one, so their values are still there
        have hr := hs.runs (hf.anti hs.wellFormed hle)
        have hne : id ≠ id' := by
          rintro rfl
          obtain ⟨d, hd⟩ := hr.defined_of_value hw
          refine next_not_defined ?_ d hd
          rw [← hid]
          exact hs.wellFormed.toNat_next
        have hw' := Machine.value?_mono hle _ hw
        unfold Machine.value? at hw' ⊢
        rw [hafter hf, Machine.values_define _ v hir, if_neg hne]
        exact hw'
      · have hne : i.opcode ≠ .store := by
          rw [← hi]
          rintro (rfl : op = .store)
          cases hop
        rw [← hb', stores_append, if_neg hne, List.append_nil]
        rfl
      · unfold Machine.value?
        rw [hafter hf, Machine.values_define _ v hir, if_pos rfl]
        rfl
      · rw [hafter hf, Machine.memory_define]
      · rw [hafter hf]
        unfold Machine.define
        rw [hir]
  · exact Ensures.of_error (emit_of_not_lt op t ops hsize) hF

/-- An instruction that neither writes nor samples. -/
theorem emit_quiet (hF : F .idsExhausted) {op : Opcode} {t : Ref} {ops : List UInt32} {v : Value}
    (hop : op.yields) (hshort : ops.length ≤ 8) (ht : b.Typing (.value t))
    (hscope : Usable b (Inst.mk op (some t) none ops).idWords) (hv : v.HasType b t)
    (hstep : e.Fits b → ∀ id, (e.after b).step b e.texels ⟨op, some t, some id, ops⟩ =
      .ok ((e.after b).define ⟨op, some t, some id, ops⟩ v)) :
    (e.quiet F).Ensures (emit op t ops) b fun id b' => b'.typeOf? id = some t ∧
      (e.Fits b' → (e.after b').value? b' id = some v) := by
  have h := emit_steady (F := F) hF (e.after b).samples hop hshort ht hscope hv hstep
  intro hs
  have h1 := h hs
  revert h1
  cases emit op t ops b with
  | error f => exact fun h => h
  | ok r =>
    rintro ⟨hs', hl, hof, hstores, hval⟩
    exact ⟨hs', ⟨hl, hstores, fun hf => (hval hf).2.1, fun hf => (hval hf).2.2⟩, hof,
      fun hf => (hval hf).1⟩

/-- A computing instruction whose result has lanes. -/
theorem emit_lanes (hF : F .idsExhausted) {op : Opcode} {t : Ref} {ops : List UInt32}
    {k : ScalarKind} {n : UInt32} {bits : List UInt32} (hop : op.isPure) (hshort : ops.length ≤ 8)
    (ht : b.LaneType t k n) (hn : bits.length = n.toNat)
    (hscope : Usable b (Inst.mk op (some t) none ops).idWords)
    (heval : e.Fits b → ∀ id, (e.after b).eval b ⟨op, some t, some id, ops⟩ = .ok (.lanes k bits)) :
    (e.quiet F).Ensures (emit op t ops) b fun id b' => e.Holds b' id k bits := by
  have hstep (hf : e.Fits b) (id : Ref) := Machine.step_of_eval e.texels hop (heval hf id)
  refine (emit_quiet hF (Opcode.yields_of_isPure hop) hshort (.inl ⟨k, n, ht⟩) hscope
    (ht.hasType hn) hstep).imp fun id b' hq h => ⟨⟨n, ⟨t, h.1, ht.mono hq.grows.table⟩, hn⟩, h.2⟩

/-- What ids hold in the run of a module from its start. -/
def reckoning (e : Environment) (hF : F .idsExhausted) : Reckoning where
  quiet := e.quiet F
  Lanes b t k n := ∃ m : UInt32, b.LaneType t k m ∧ m.toNat = n
  Holds := e.Holds
  Bears := e.Holds
  Admits n := n ≤ 8
  table hq := hq.grows.table
  lanes_of_laneType h := ⟨_, h, rfl⟩
  lanes_of_lanes h := by
    obtain ⟨n, hl, rfl⟩ := h
    exact hl.lanes
  lanes_contained h := by
    obtain ⟨n, hl, -⟩ := h
    exact ⟨1, .inl ⟨rfl, hl.containedType⟩, rfl⟩
  lanes_mono h hq := by
    obtain ⟨n, hl, hn⟩ := h
    exact ⟨n, hl.mono hq.grows.table, hn⟩
  holds_mono h hq := h.mono hq.toLeads
  bears_mono h hq := h.mono hq.toLeads
  bears_of_holds h := h
  typed_of_bears h := by
    obtain ⟨n, ⟨t, ht, hl⟩, hn⟩ := h.lanes
    exact ⟨t, ht, n, hl, hn.symm⟩
  admits_of_le h := h
  type_ensures hrefs := type_ensures hF hrefs
  constant_ensures ht := constant_ensures hF ht
  importExtSet_ensures := quiet_of_declaring (importExtSet_declares hF)
  emit_ensures hop hshort ht hscope heval := by
    obtain ⟨n, ht, hn⟩ := ht
    exact emit_lanes hF hop hshort ht hn.symm hscope fun hf => heval _ _
      ⟨TableLe.refl _, fun h => h.lookup hf, fun h => ⟨_, h.lookup hf, rfl⟩⟩

end Environment

end TextureLift
