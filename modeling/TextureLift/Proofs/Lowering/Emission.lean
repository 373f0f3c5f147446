import TextureLift.Module.Build
import TextureLift.Proofs.Action
import TextureLift.Proofs.Machine.Soundness
import TextureLift.Proofs.Module.Binary

/-!
# What emitted code computes

Every action that builds a module keeps it sound and leaves the values of earlier ids as they were
(`Environment.Leads`). Most actions also leave the memory and the samples of the machine alone
(`Environment.Quiet`). `Environment.Holds e b id k bits` says that the module gives an id a lane type
of kind `k` and that the machine computes the lanes `bits` for it; each emitting action gets its
specification in these terms:

    e.Holds b x .f32 [a] → (e.quiet F).Ensures (emit .convertFToU t [x.word]) b
      fun id b' => e.Holds b' id .u32 [Single.toUnsigned a]

Faults are those of `F`, which has to allow running out of ids.
-/

namespace TextureLift

open Builder

/-! ## Growth of a module -/

namespace Builder

variable {b b' b'' : Builder}

/-- The table of one module extends that of another, and so do the decorations; no entry points are
added. -/
structure Extends (b b' : Builder) : Prop where
  table : TableLe b b'
  entries : b'.entryPoints = b.entryPoints
  decorated : ∀ d ∈ b.decorations, d ∈ b'.decorations

theorem Extends.refl (b : Builder) : b.Extends b :=
  ⟨TableLe.refl b, rfl, fun _ h => h⟩

theorem Extends.trans (h : b.Extends b') (h' : b'.Extends b'') : b.Extends b'' :=
  ⟨h.table.trans h'.table, h'.entries.trans h.entries, fun d hd => h'.decorated d (h.decorated d hd)⟩

/-- The table and the body of one module extend those of another. -/
structure Grows (b b' : Builder) : Prop extends Extends b b' where
  body : ∃ code, b'.body.toList = b.body.toList ++ code ∧
    ∀ i ∈ code, i.opcode.isCode ∧ i.Formed

theorem Grows.refl (b : Builder) : b.Grows b :=
  ⟨Extends.refl b, [], by simp, by simp⟩

theorem Grows.trans (h : b.Grows b') (h' : b'.Grows b'') : b.Grows b'' := by
  obtain ⟨code, hc, ho⟩ := h.body
  obtain ⟨code', hc', ho'⟩ := h'.body
  refine ⟨h.toExtends.trans h'.toExtends, code ++ code',
    by rw [hc', hc, List.append_assoc], ?_⟩
  intro i hi
  rcases List.mem_append.1 hi with hi | hi
  · exact ho i hi
  · exact ho' i hi

/-- The stores of the body, in their order. -/
def stores (b : Builder) : List Inst :=
  b.body.toList.filter (·.opcode = .store)

theorem stores_append (b : Builder) (i : Inst) :
    (b.append i).stores = b.stores ++ if i.opcode = .store then [i] else [] := by
  unfold stores append
  rw [Array.toList_push, List.filter_append]
  split <;> simp_all

end Builder

namespace Environment

variable {e : Environment} {F : Fault → Prop} {b b' b'' : Builder}

/-- The module grew and earlier ids kept their values. -/
structure Leads (e : Environment) (b b' : Builder) : Prop where
  grows : b.Grows b'
  fits : e.Fits b' → e.Fits b
  values : e.Fits b' → ∀ id v, (e.after b).value? b id = some v → (e.after b').value? b' id = some v

/-- The module grew by code that neither writes nor samples. -/
structure Quiet (e : Environment) (b b' : Builder) : Prop extends Leads e b b' where
  stores : b'.stores = b.stores
  memory : e.Fits b' → (e.after b').memory = (e.after b).memory
  samples : e.Fits b' → (e.after b').samples = (e.after b).samples

theorem Leads.refl (b : Builder) : e.Leads b b :=
  ⟨Grows.refl b, id, fun _ _ _ h => h⟩

theorem Leads.trans (h : e.Leads b b') (h' : e.Leads b' b'') : e.Leads b b'' where
  grows := h.grows.trans h'.grows
  fits hf := h.fits (h'.fits hf)
  values hf id v hv := h'.values hf id v (h.values (h'.fits hf) id v hv)

theorem Quiet.refl (b : Builder) : e.Quiet b b :=
  ⟨Leads.refl b, rfl, fun _ => rfl, fun _ => rfl⟩

theorem Quiet.trans (h : e.Quiet b b') (h' : e.Quiet b' b'') : e.Quiet b b'' where
  toLeads := h.toLeads.trans h'.toLeads
  stores := h'.stores.trans h.stores
  memory hf := (h'.memory hf).trans (h.memory (h'.fits hf))
  samples hf := (h'.samples hf).trans (h.samples (h'.fits hf))

/-- Actions that keep the module sound. -/
def steady (e : Environment) (F : Fault → Prop) : Discipline Builder where
  keeps := e.Sound
  leads := e.Leads
  faults := F
  refl := Leads.refl
  trans := Leads.trans

/-- Actions that keep the module sound and emit no store and no sample. -/
def quiet (e : Environment) (F : Fault → Prop) : Discipline Builder where
  keeps := e.Sound
  leads := e.Quiet
  faults := F
  refl := Quiet.refl
  trans := Quiet.trans

/-- A quiet action is a steady one, and what makes it quiet may be kept as a fact. -/
theorem steady_of_quiet {α : Type} {a : Build α} {Q : α → Builder → Prop}
    (h : (e.quiet F).Ensures a b Q) :
    (e.steady F).Ensures a b fun v b' => e.Quiet b b' ∧ Q v b' :=
  (h.imp fun _ _ hq hQ => ⟨hq, hQ⟩).weaken (fun h => h) (fun _ _ h1 h2 _ => ⟨h1, h2.toLeads⟩)
    fun _ hf => hf

/-! ## Values of ids -/

/-- The id has a lane type, and the machine computes these lanes for it. -/
structure Holds (e : Environment) (b : Builder) (id : Ref) (k : ScalarKind) (bits : List UInt32) :
    Prop where
  lanes : ∃ n, b.HasLanes id k n ∧ bits.length = n.toNat
  value : e.Fits b → (e.after b).value? b id = some (.lanes k bits)

variable {id : Ref} {k : ScalarKind} {bits : List UInt32}

theorem Holds.mono (h : e.Holds b id k bits) (hl : e.Leads b b') : e.Holds b' id k bits := by
  obtain ⟨n, hn, hlen⟩ := h.lanes
  exact ⟨⟨n, hn.mono hl.grows.table, hlen⟩, fun hf => hl.values hf id _ (h.value (hl.fits hf))⟩

theorem Holds.typeOf_isSome (h : e.Holds b id k bits) : (b.typeOf? id).isSome := by
  obtain ⟨n, ⟨t, ht, -⟩, -⟩ := h.lanes
  rw [ht]
  rfl

theorem Holds.lookup (h : e.Holds b id k bits) (hf : e.Fits b) :
    (e.after b).lookup b id = .ok (.lanes k bits) := by
  unfold Machine.lookup
  rw [h.value hf]

theorem Holds.hasLanes (h : e.Holds b id k bits) : b.HasLanes id k (.ofNat bits.length) := by
  obtain ⟨n, hn, hl⟩ := h.lanes
  rw [hl, UInt32.ofNat_toNat]
  exact hn

end Environment

end TextureLift
