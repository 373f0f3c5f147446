import TextureLift.Lowering.Query
import TextureLift.Lowering.Sample
import TextureLift.Proofs.Lowering.Instruction
import TextureLift.Proofs.Lowering.Store

/-!
# Actions that only compute

Most of what is emitted for an instruction or a query computes: it takes types and constants from the
table, or adds them, and appends instructions with results. It declares no variable, writes none and
decorates nothing. `Build.Computes` says so of an action whatever ids it is given, in a module that
may be ill-formed; all that is asked is that ids are words.
-/

namespace TextureLift

open Build Discipline

namespace Builder

variable {b b' b'' : Builder} {d : Definition}

/-- The table grew, but by no variable; stores, decorations and entry points are as they were. -/
structure Computes (b b' : Builder) : Prop where
  table : TableLe b b'
  vars : ∀ id t s, b'.definition? id = some (.var t s) → b.definition? id = some (.var t s)
  stores : b'.stores = b.stores
  decorations : b'.decorations = b.decorations
  entries : b'.entryPoints = b.entryPoints

theorem Computes.refl (b : Builder) : b.Computes b :=
  ⟨TableLe.refl b, fun _ _ _ h => h, rfl, rfl, rfl⟩

theorem Computes.trans (h : b.Computes b') (h' : b'.Computes b'') : b.Computes b'' where
  table := h.table.trans h'.table
  vars id t s hid := h.vars id t s (h'.vars id t s hid)
  stores := h'.stores.trans h.stores
  decorations := h'.decorations.trans h.decorations
  entries := h'.entries.trans h.entries

/-- Actions that compute. -/
def computing : Discipline Builder where
  keeps b := b.definitions.size < UInt32.size
  leads := Computes
  faults _ := True
  refl := Computes.refl
  trans := Computes.trans

/-- A new definition that is no variable. -/
theorem computes_push (hpush : b'.definitions = b.definitions.push d) (hd : ∀ t s, d ≠ .var t s)
    (hstores : b'.stores = b.stores) (hdecorations : b'.decorations = b.decorations)
    (hentries : b'.entryPoints = b.entryPoints) : b.Computes b' := by
  refine ⟨tableLe_push d hpush, fun id t s hid => ?_, hstores, hdecorations, hentries⟩
  rcases definition?_of_push hpush hid with hid | ⟨-, rfl⟩
  · exact hid
  · exact absurd rfl (hd t s)

theorem fresh_computes (hd : ∀ t s, d ≠ .var t s) :
    computing.Ensures (fresh d) b fun id b' => b'.definition? id = some d := by
  by_cases hsize : b.definitions.size + 1 < UInt32.size
  · refine Ensures.of_ok (if_pos hsize) fun hb => ⟨?_, computes_push rfl hd rfl rfl rfl, ?_⟩
    · show (b.definitions.push d).size < UInt32.size
      rwa [Array.size_push]
    · exact definition?_next rfl hb
  · exact Ensures.of_error (if_neg hsize) trivial

theorem intern_computes (hd : ∀ t s, d ≠ .var t s) :
    computing.Ensures (intern d) b fun id b' => b'.definition? id = some d := by
  refine Ensures.assume fun hb => Ensures.get_bind ?_
  cases hi : b.definitions.idxOf? d with
  | some i => exact Ensures.pure _ (definition?_of_idxOf? hb hi)
  | none => exact fresh_computes hd

theorem type_computes (decl : TypeDecl) :
    computing.Ensures (type decl) b fun id b' => b'.typeDecl? id = some decl :=
  (intern_computes (by simp)).imp fun _ _ _ h => typeDecl?_eq_some.2 h

/-- The type of the variables that registers and inputs live in. -/
theorem floatVector_computes :
    computing.Ensures (floatVectorType 4) b fun id b' => b'.LaneType id .f32 4 :=
  (type_computes (.float 32)).bind fun float _ _ hfloat =>
    (type_computes (.vector float 4)).imp fun _ _ hl hid =>
      .inr ⟨by decide, float, hid, hl.table.typeDecl hfloat⟩

end Builder

namespace Build

/-- From any module, the action only computes. -/
def Computes {α : Type} (a : Build α) : Prop :=
  ∀ b, Builder.computing.Ensures a b fun _ _ => True

namespace Computes

variable {α β : Type} {a : Build α}

/-! ## Sequences -/

theorem of_ensures {Q : α → Builder → Prop} (h : ∀ b, Builder.computing.Ensures a b Q) : Computes a :=
  fun b => (h b).imp fun _ _ _ _ => trivial

theorem pure (v : α) : Computes (Pure.pure v : Build α) :=
  fun _ => Ensures.pure v trivial

theorem bind {f : α → Build β} (ha : Computes a) (hf : ∀ v, Computes (f v)) : Computes (a >>= f) :=
  fun b => (ha b).bind fun v t _ _ => hf v t

/-- The module may be looked at. -/
theorem read {f : Builder → Build α} (hf : ∀ b, Computes (f b)) : Computes (get >>= f) :=
  fun b => Ensures.get_bind (hf b b)

theorem lift (x : Except Fault α) : Computes (liftM x : Build α) :=
  fun _ => Ensures.lift (fun _ _ => trivial) fun _ _ => trivial

theorem mapM {f : α → Build β} (l : List α) (hf : ∀ v, Computes (f v)) : Computes (l.mapM f) := by
  induction l with
  | nil => exact pure []
  | cons v l ih =>
    rw [List.mapM_cons]
    exact (hf v).bind fun w => ih.bind fun ws => pure (w :: ws)

/-! ## Types, constants and instructions -/

theorem type (decl : TypeDecl) : Computes (Build.type decl) :=
  of_ensures fun _ => Builder.type_computes decl

theorem vectorType (component : Ref) (count : UInt32) :
    Computes (Build.vectorType component count) := by
  unfold Build.vectorType
  split
  · exact pure component
  · exact type _

theorem floatVectorType (count : UInt32) : Computes (Build.floatVectorType count) :=
  (type _).bind fun float => vectorType float count

theorem constant (decl : TypeDecl) (bits : UInt32) :
    Computes (do Build.intern (.constant (← Build.type decl) bits)) :=
  (type decl).bind fun _ => of_ensures fun _ => Builder.intern_computes (by simp)

theorem floatConstant (bits : UInt32) : Computes (Build.floatConstant bits) :=
  constant _ bits

/-- What neither defines nor emits anything. -/
theorem edit {f : Builder → Builder} (hdefinitions : ∀ b, (f b).definitions = b.definitions)
    (hbody : ∀ b, (f b).body = b.body) (hdecorations : ∀ b, (f b).decorations = b.decorations)
    (hentries : ∀ b, (f b).entryPoints = b.entryPoints) : Computes (modify f : Build Unit) := by
  intro b
  have hdefinition (id : Ref) : (f b).definition? id = b.definition? id := by
    unfold Builder.definition?
    rw [hdefinitions]
  have hstores : (f b).stores = b.stores := by
    unfold Builder.stores
    rw [hbody]
  refine Ensures.of_ok rfl fun hb => ⟨?_, ⟨fun i d hi => ?_, fun id t s hid => ?_, hstores,
    hdecorations b, hentries b⟩, trivial⟩
  · show (f b).definitions.size < _
    rw [hdefinitions]
    exact hb
  · rw [hdefinitions]
    exact hi
  · rw [← hdefinition]
    exact hid

theorem importExtSet : Computes Build.importExtSet := by
  refine read fun b => ?_
  split
  · exact pure _
  · refine (of_ensures fun _ => Builder.fresh_computes (by simp)).bind fun id => ?_
    refine bind (edit ?_ ?_ ?_ ?_) fun _ => pure id <;> exact fun _ => rfl

/-- Appends an instruction with a result. -/
theorem define {d : Definition} {i : Ref → Inst} (hd : ∀ t s, d ≠ .var t s)
    (hop : ∀ id, (i id).opcode ≠ .store) : Computes (defineWith d fun id => (·.append (i id))) := by
  intro b
  by_cases hsize : b.definitions.size + 1 < UInt32.size
  · refine Ensures.of_ok (defineWith_of_lt _ _ hsize) fun _ => ⟨?_, ?_, trivial⟩
    · show (b.definitions.push _).size < UInt32.size
      rwa [Array.size_push]
    · refine Builder.computes_push rfl hd ?_ rfl rfl
      rw [Builder.stores_append, if_neg (hop _), List.append_nil]
      rfl
  · exact Ensures.of_error (defineWith_of_not_lt _ _ hsize) trivial

theorem emit {op : Opcode} (hop : op ≠ .store) (t : Ref) (operands : List UInt32) :
    Computes (Build.emit op t operands) :=
  define (by simp) fun _ => hop

theorem beginFunction : Computes Build.beginFunction := by
  rw [beginFunction_eq]
  refine (type _).bind fun void => (type _).bind fun functionType => ?_
  refine (define (by simp) (by simp)).bind fun main => ?_
  exact (define (by simp) (by simp)).bind fun _ => pure main

theorem load (pointer : Ref) : Computes (Build.load pointer) :=
  (read fun _ => pure _).bind fun _ => read fun _ => emit (by decide) _ _

theorem bitcast (t value : Ref) : Computes (Build.bitcast t value) :=
  emit (by decide) _ _

theorem construct (t : Ref) (parts : List Ref) : Computes (Build.construct t parts) :=
  emit (by decide) _ _

theorem extract (composite : Ref) (index : UInt32) : Computes (Build.extract composite index) :=
  (read fun _ => pure _).bind fun _ => read fun _ => emit (by decide) _ _

theorem insert (object composite : Ref) (index : UInt32) :
    Computes (Build.insert object composite index) :=
  (read fun _ => pure _).bind fun _ => emit (by decide) _ _

theorem shuffle (t a b : Ref) (lanes : List UInt32) : Computes (Build.shuffle t a b lanes) :=
  emit (by decide) _ _

theorem extInst (t : Ref) (op : ExtOpcode) (args : List Ref) : Computes (Build.extInst t op args) :=
  importExtSet.bind fun _ => emit (by decide) _ _

/-! ## Conversions -/

open Lowering

theorem splat (bits count : UInt32) : Computes (Lowering.splat bits count) := by
  refine (floatConstant bits).bind fun constant => ?_
  split
  · exact pure constant
  · exact (floatVectorType count).bind fun _ => construct _ _

theorem saturate (value : Ref) (lo hi : UInt32) (signed : Bool) :
    Computes (Lowering.saturate value lo hi signed) := by
  refine read fun b => (floatVectorType _).bind fun float => (extInst _ _ _).bind fun rounded => ?_
  refine (splat lo _).bind fun lower => (splat hi _).bind fun upper => ?_
  refine (extInst _ _ _).bind fun clamped => ?_
  split
  · exact (type _).bind fun _ => (vectorType _ _).bind fun _ => emit (by decide) _ _
  · exact (type _).bind fun _ => (vectorType _ _).bind fun _ => emit (by decide) _ _

theorem saturateTo (value : Ref) (e : Encoding) : Computes (Lowering.saturateTo value e) := by
  unfold Lowering.saturateTo
  split
  · exact saturate _ _ _ _
  · exact lift (.error _)

theorem saturateFixed (value : Ref) : Computes (Lowering.saturateFixed value) :=
  read fun _ => (floatVectorType _).bind fun _ => (splat _ _).bind fun _ =>
    (emit (by decide) _ _).bind fun _ => saturate _ _ _ _

theorem unpackField (raw : Ref) (e : Encoding) (lane : UInt32) :
    Computes (Lowering.unpackField raw e lane) := by
  refine (type _).bind fun float => (lift _).bind fun offset => (constant _ _).bind fun _ => ?_
  refine (constant _ _).bind fun count => ?_
  split
  · exact (type _).bind fun _ => (bitcast _ _).bind fun _ => (emit (by decide) _ _).bind fun _ =>
      emit (by decide) _ _
  · exact (type _).bind fun _ => (bitcast _ _).bind fun _ => (emit (by decide) _ _).bind fun _ =>
      emit (by decide) _ _

theorem unpackHalves (raw : Ref) : Computes (Lowering.unpackHalves raw) :=
  (type _).bind fun _ => (type _).bind fun _ => (vectorType _ _).bind fun _ =>
    (bitcast _ _).bind fun _ => extInst _ _ _

theorem unpackLane (raw : Ref) (e : Encoding) (lane : UInt32) :
    Computes (Lowering.unpackLane raw e lane) := by
  refine (type _).bind fun float => ?_
  cases e with
  | f32 => exact pure raw
  | f16 => exact (unpackHalves raw).bind fun _ => extract _ _
  | u32 | s32 => exact (type _).bind fun _ => (bitcast _ _).bind fun _ => emit (by decide) _ _
  | c10 => exact (unpackField _ _ _).bind fun _ => (floatConstant _).bind fun _ => emit (by decide) _ _
  | u8 | s8 | u16 | s16 => exact unpackField _ _ _

theorem unpackAll (raw : Ref) (e : Encoding) : Computes (Lowering.unpackAll raw e) := by
  unfold Lowering.unpackAll
  split
  · exact pure raw
  · exact unpackHalves raw
  · refine (type _).bind fun float => (mapM _ fun _ => unpackLane _ _ _).bind fun lanes => ?_
    split
    · exact pure _
    · exact (vectorType _ _).bind fun _ => construct _ _

/-! ## Coordinates and fetches -/

theorem dereference (value : Ref) : Computes (Lowering.dereference value) := by
  refine read fun b => ?_
  split
  · exact load value
  · exact pure value

theorem unpackCoord (value : Ref) (e : Encoding) : Computes (Lowering.unpackCoord value e) := by
  have hrest (raw : Ref) : Computes (do
      let lanes ← Lowering.unpackAll raw e
      if 2 < (← get).components lanes then
        Build.shuffle (← Build.floatVectorType 2) lanes lanes [0, 1]
      else return lanes : Build Ref) := by
    refine (unpackAll raw e).bind fun lanes => read fun b => ?_
    split
    · exact (floatVectorType _).bind fun _ => shuffle _ _ _ _
    · exact pure lanes
  refine (dereference value).bind fun value => read fun b => ?_
  dsimp only
  split
  · exact (type _).bind fun _ => (constant _ _).bind fun _ => (emit (by decide) _ _).bind hrest
  · exact hrest value

theorem normalizeCoord (coord : Coord) : Computes (Lowering.normalizeCoord coord) := by
  have hrest (unpacked : Ref) : Computes (do
      let value ← Lowering.dereference unpacked
      if (← get).isFloat value then return value else throw (.coordNotFloat value) : Build Ref) := by
    refine (dereference unpacked).bind fun value => read fun b => ?_
    split
    · exact pure value
    · exact lift (.error _)
  unfold Lowering.normalizeCoord
  split
  · exact hrest _
  · exact (unpackCoord _ _).bind hrest

theorem sampleImage (texture coord : Ref) (lod : FetchLod) :
    Computes (Lowering.sampleImage texture coord lod) := by
  refine (floatVectorType _).bind fun _ => (load texture).bind fun image => ?_
  cases lod with
  | implicit | projective | bias level | gradient dx dy => exact emit (by decide) _ _

theorem fetch (texture : Ref) (coord : Coord) (dest : Encoding) (lod : FetchLod) :
    Computes (Lowering.fetch texture coord dest lod) := by
  refine (normalizeCoord coord).bind fun coord => (sampleImage texture coord lod).bind fun texel => ?_
  split
  · exact saturateTo texel dest
  · exact pure texel

theorem coordElement (base : Ref) (count : UInt32) (e : Encoding) (element : UInt32) :
    Computes (Lowering.coordElement base count e element) := by
  unfold Lowering.coordElement
  dsimp only
  split
  · exact floatConstant _
  · split
    · exact (extract _ _).bind fun _ => unpackLane _ _ _
    · exact unpackLane _ _ _

theorem projectedCoord (coord : Coord) (divisor : UInt8) :
    Computes (Lowering.projectedCoord coord divisor) := by
  refine (dereference _).bind fun base => (floatVectorType _).bind fun vec3 => ?_
  split
  · exact shuffle _ _ _ _
  · exact read fun b => (coordElement _ _ _ _).bind fun _ => (coordElement _ _ _ _).bind fun _ =>
      (coordElement _ _ _ _).bind fun _ => construct _ _

/-! ## Stored values -/

theorem encodeValue (e : Encoding) (value : Ref) : Computes (Emit.encodeValue e value) := by
  refine read fun b => ?_
  split
  · exact saturateTo value e
  · split
    · exact saturateFixed value
    · exact pure value

theorem laneBits (e : Encoding) (value : Ref) : Computes (Emit.laneBits e value) := by
  refine (type _).bind fun uint => ?_
  split
  · exact (floatConstant _).bind fun _ => (floatVectorType _).bind fun _ =>
      (construct _ _).bind fun _ => extInst _ _ _
  · exact bitcast _ _

theorem mergeLane (e : Encoding) (raw bits : Ref) (lane : UInt32) :
    Computes (Emit.mergeLane e raw bits lane) := by
  refine (type _).bind fun uint => (bitcast _ _).bind fun old => (lift _).bind fun _ => ?_
  refine (constant _ _).bind fun offset => (constant _ _).bind fun count => ?_
  exact (emit (by decide) _ _).bind fun _ => (type _).bind fun _ => bitcast _ _

theorem pickLane (encoded : Ref) (count lane : UInt32) :
    Computes (Emit.pickLane encoded count lane) := by
  unfold Emit.pickLane
  split
  · exact extract _ _
  · exact pure encoded

end Computes

end Build

end TextureLift
