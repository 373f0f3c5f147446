import TextureLift.Proofs.Lowering.Emission

/-!
# Declarations

Types and constants are interned, variables are new each time. None of them changes the body or what
the machine has done, which is what `Environment.Declares` says. Each action is specified as a
declaration where that is needed, and as a quiet action, like the instructions that follow.
-/

namespace TextureLift.Environment

open Builder Build Discipline

variable {e : Environment} {F : Fault → Prop} {b : Builder}

/-! ## New definitions -/

/-- The module grew by declarations only. -/
structure Declares (e : Environment) (b b' : Builder) : Prop extends Quiet e b b' where
  same : b'.body = b.body

theorem Declares.refl (b : Builder) : e.Declares b b :=
  ⟨Quiet.refl b, rfl⟩

theorem Declares.trans {b b' b'' : Builder} (h : e.Declares b b') (h' : e.Declares b' b'') :
    e.Declares b b'' :=
  ⟨h.toQuiet.trans h'.toQuiet, h'.same.trans h.same⟩

/-- Actions that keep the module sound and leave the body alone. -/
def declaring (e : Environment) (F : Fault → Prop) : Discipline Builder where
  keeps := e.Sound
  leads := e.Declares
  faults := F
  refl := Declares.refl
  trans := Declares.trans

theorem quiet_of_declaring {α : Type} {a : Build α} {Q : α → Builder → Prop}
    (h : (e.declaring F).Ensures a b Q) : (e.quiet F).Ensures a b Q :=
  h.weaken (fun h => h) (fun _ _ h1 h2 _ => ⟨h1, h2.toQuiet⟩) fun _ hf => hf

/-- Additions that leave the body alone are declarations. -/
theorem Declares.of_after {b' : Builder} (hb : b.WellFormed) (hle : b.Extends b')
    (hbody : b'.body = b.body) (hafter : e.Fits b' → e.after b' = e.after b) :
    e.Declares b b' where
  same := hbody
  grows := ⟨hle, [], by rw [hbody, List.append_nil], by simp⟩
  fits := fun hf => hf.anti hb hle.table
  values := fun hf id v h => by
    rw [hafter hf]
    exact Machine.value?_mono hle.table _ h
  stores := by rw [Builder.stores, hbody, Builder.stores]
  memory := fun hf => by rw [hafter hf]
  samples := fun hf => by rw [hafter hf]

/-- A definition that is no result of the body. -/
theorem fresh_declares (hF : F .idsExhausted) {d : Definition} (hv : ∀ t, d ≠ .value t)
    (hrefs : ∀ r ∈ d.refs, (b.typeDecl? r).isSome)
    (htyping : b.Typing d) :
    (e.declaring F).Ensures (fresh d) b
      fun id b' => b.definition? id = none ∧ b'.definition? id = some d := by
  by_cases hsize : b.definitions.size + 1 < UInt32.size
  · refine Ensures.of_ok (if_pos hsize) fun hs => ?_
    obtain ⟨hs', hafter⟩ := hs.define ⟨hsize, hrefs, htyping⟩ hv b.extSet (.inl rfl) rfl
    have hpush : ({ b with definitions := b.definitions.push d } : Builder).definitions =
      b.definitions.push d := rfl
    refine ⟨hs', Declares.of_after hs.wellFormed ⟨tableLe_push d hpush, rfl, fun _ h => h⟩ rfl hafter, ?_,
      definition?_next hpush hs.wellFormed.size_lt⟩
    exact Option.eq_none_iff_forall_ne_some.2 (next_not_defined hs.wellFormed.toNat_next)
  · exact Ensures.of_error (if_neg hsize) hF

theorem intern_declares (hF : F .idsExhausted) {d : Definition} (hv : ∀ t, d ≠ .value t)
    (hrefs : ∀ r ∈ d.refs, (b.typeDecl? r).isSome)
    (htyping : b.Typing d) :
    (e.declaring F).Ensures (intern d) b fun id b' => b'.definition? id = some d := by
  refine Ensures.assume fun hs => Ensures.get_bind ?_
  cases hi : b.definitions.idxOf? d with
  | none => exact (fresh_declares hF hv hrefs htyping).imp fun _ _ _ h => h.2
  | some i => exact Ensures.pure _ (definition?_of_idxOf? hs.wellFormed.size_lt hi)

theorem importExtSet_declares (hF : F .idsExhausted) :
    (e.declaring F).Ensures importExtSet b fun id b' => b'.extSet = some id := by
  refine Ensures.get_bind ?_
  cases hset : b.extSet with
  | some id => exact Ensures.pure _ hset
  | none =>
    by_cases hsize : b.definitions.size + 1 < UInt32.size
    · refine Ensures.of_ok (defineWith_of_lt .plain _ hsize) fun hs => ?_
      obtain ⟨hs', hafter⟩ := hs.define (d := .plain) ⟨hsize, by simp [Definition.refs], trivial⟩
        (by simp) (some _) (.inr ⟨rfl, hset, rfl⟩) rfl
      exact ⟨hs', Declares.of_after hs.wellFormed ⟨tableLe_push .plain rfl, rfl, fun _ h => h⟩ rfl hafter,
        rfl⟩
    · exact Ensures.of_error (defineWith_of_not_lt .plain _ hsize) hF

/-! ## Types -/

theorem type_declares (hF : F .idsExhausted) {decl : TypeDecl}
    (hrefs : ∀ r ∈ decl.refs, (b.typeDecl? r).isSome) :
    (e.declaring F).Ensures (type decl) b fun id b' => b'.typeDecl? id = some decl :=
  (intern_declares (d := .type decl) hF (by simp) hrefs trivial).imp
    fun _ _ _ h => typeDecl?_eq_some.2 h

theorem type_ensures (hF : F .idsExhausted) {decl : TypeDecl}
    (hrefs : ∀ r ∈ decl.refs, (b.typeDecl? r).isSome) :
    (e.quiet F).Ensures (type decl) b fun id b' => b'.typeDecl? id = some decl :=
  quiet_of_declaring (type_declares hF hrefs)

/-! ## Constants -/

/-- A constant of a scalar type holds its bits. No instruction has its id as result. -/
theorem constant_ensures (hF : F .idsExhausted) {t : Ref} {k : ScalarKind} {bits : UInt32}
    (ht : b.typeDecl? t = some k.decl) :
    (e.quiet F).Ensures (intern (.constant t bits)) b fun id b' => e.Holds b' id k [bits] := by
  have hrefs : ∀ r ∈ (Definition.constant t bits).refs, (b.typeDecl? r).isSome := by
    simp [Definition.refs, ht]
  intro hs
  have h := quiet_of_declaring (intern_declares (e := e) hF (by simp) hrefs ⟨k, .inl ⟨rfl, ht⟩⟩) hs
  revert h
  cases intern (.constant t bits) b with
  | error f => exact fun h => h
  | ok r =>
    rintro ⟨hs', hq, hd⟩
    have hl : r.2.LaneType t k 1 := .inl ⟨rfl, hq.grows.table.typeDecl ht⟩
    refine ⟨hs', hq, ⟨1, ⟨t, typeOf?_eq_some.2 ⟨_, hd, rfl⟩, hl⟩, rfl⟩, fun hf => ?_⟩
    have hnone : (e.after r.2).values[r.1.word]? = none := by
      cases hv : (e.after r.2).values[r.1.word]? with
      | none => rfl
      | some v =>
        obtain ⟨t', ht'⟩ := (hs'.runs hf).known r.1 v hv
        rw [hd] at ht'
        cases ht'
    unfold Machine.value? constantValue?
    rw [hnone, constant?_eq_some.2 hd]
    show (r.2.scalarKind? t).bind _ = _
    rw [hl.scalarKind]
    rfl

/-! ## Variables -/

/-- A new variable, whose contents no code has written. -/
theorem variableOf_declares (hF : F .idsExhausted) {s : Storage} {p : Ref}
    (hp : if s = .uniformConstant then ∃ image, b.typeDecl? p = some (.sampledImage image)
      else b.LaneType p .f32 4) :
    (e.declaring F).Ensures (variableOf s p) b
      fun id b' => b.definition? id = none ∧ ∃ t, b'.definition? id = some (.var t s) ∧
        b'.typeDecl? t = some (.pointer s p) := by
  have hdecl : (b.typeDecl? p).isSome := by
    split at hp
    · obtain ⟨image, hi⟩ := hp
      rw [hi]
      rfl
    · exact hp.typeDecl_isSome
  refine (type_declares hF (by simpa [TypeDecl.refs] using hdecl)).bind fun t b' hq ht => ?_
  have hv : b'.Typing (.var t s) := by
    refine ⟨p, ht, ?_⟩
    split
    · rename_i hc
      rw [if_pos hc] at hp
      obtain ⟨image, hi⟩ := hp
      exact ⟨image, hq.grows.table.typeDecl hi⟩
    · rename_i hc
      rw [if_neg hc] at hp
      exact hp.mono hq.grows.table
  refine (fresh_declares hF (by simp) (by simp [Definition.refs, ht]) hv).imp
    fun id b'' hq' ⟨hnone, hd⟩ => ⟨?_, t, hd, hq'.grows.table.typeDecl ht⟩
  · cases hid : b.definition? id with
    | none => rfl
    | some d =>
      rw [hq.grows.table.definition hid] at hnone
      cases hnone

/-! ## Sections without ids -/

/-- An addition to another section than the table and the body. -/
theorem modify_declares {f : Builder → Builder} (hdef : (f b).definitions = b.definitions)
    (hbody : (f b).body = b.body) (hentries : (f b).entryPoints = b.entryPoints)
    (hdecorated : ∀ d ∈ b.decorations, d ∈ (f b).decorations)
    (hwf : b.WellFormed → (f b).WellFormed) :
    (e.declaring F).Ensures (modify f) b fun _ b' => b' = f b := by
  refine Ensures.of_ok (v := ()) (t := f b) rfl fun hs => ?_
  have hle : TableLe b (f b) := fun i d h => by
    rw [hdef]
    exact h
  obtain ⟨hs', hafter⟩ := hs.sameBody (hwf hs.wellFormed) hle hbody fun id d h => .inl (by
    unfold definition? at h ⊢
    rw [hdef] at h
    exact h)
  exact ⟨hs', Declares.of_after hs.wellFormed ⟨hle, hentries, hdecorated⟩ hbody hafter, rfl⟩

/-- A decoration of a value or variable. -/
theorem decorate_declares {target : Ref} {kind value : UInt32} (ht : (b.typeOf? target).isSome) :
    (e.declaring F).Ensures (decorate target kind value) b
      fun _ b' => b' = b.decorate ⟨target, kind, value⟩ := by
  refine modify_declares rfl rfl rfl (fun _ => Array.mem_push_of_mem _) fun hb => { hb with targets := fun d hd => ?_ }
  rcases Array.mem_push.1 hd with hd | rfl
  · exact hb.targets d hd
  · exact hb.inScope_of_typeOf ht

end TextureLift.Environment
