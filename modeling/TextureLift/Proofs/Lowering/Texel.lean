import TextureLift.Proofs.Lowering.Coordinate
import TextureLift.Proofs.Lowering.Parting
import TextureLift.Proofs.Lowering.Variables
import TextureLift.Proofs.Lowering.Writing

/-!
# Texels on their way to registers

A texel is converted to the numbers of its destination in one of two places: in the fetch, if the fetch
is told the encoding, or in the store. The code is the same:

    fetchInto dest.encoding texture coord lod dest mask    a query
    fetchInto .f32 texture coord lod dest mask             a sample instruction

Either way, the registers get `dest.encoding.encodeNumber x` for the lanes `x` of the texel.
-/

namespace TextureLift

open Builder Build Discipline Lowering Number

/-- Fetches a texel as numbers of an encoding and stores it. -/
def Lowering.fetchInto (numbers : Encoding) (texture : Ref) (coord : Coord) (lod : FetchLod)
    (dest : Operand) (mask : LaneMask) : Emit Unit := do
  let texel ← fetch texture coord numbers lod
  Emit.store dest texel mask

/-! ## Raw texels -/

/-- What a fetch does before it converts. -/
def Lowering.rawTexel (texture : Ref) (coord : Coord) (lod : FetchLod) : Build Ref := do
  sampleImage texture (← normalizeCoord coord) lod

theorem fetch_eq (texture : Ref) (coord : Coord) (e : Encoding) (lod : FetchLod) :
    fetch texture coord e lod = rawTexel texture coord lod >>= fun texel =>
      if e.isInteger then saturateTo texel e else return texel := by
  unfold fetch rawTexel
  rw [bind_assoc]

theorem sampleImage_eq (texture coord : Ref) (lod : FetchLod) :
    sampleImage texture coord lod = floatVectorType 4 >>= fun vec4 => load texture >>= fun image =>
      emit lod.opcode vec4 (image.word :: coord.word :: lod.words) := by
  cases lod <;> rfl

namespace Passage

variable {x : Passage} {F : Fault → Prop} {b : Builder} {coord : Coord} {ws : List UInt32}
  (hF : F .idsExhausted)

include hF

/-- A load of whatever an id stands for. -/
theorem loadAny_ensures (pointer : Ref) : (x.quiet F).Ensures (load pointer) b fun _ _ => True :=
  Ensures.get_bind ((emit_step hF fun _ _ => rfl).imp fun _ _ _ _ => trivial)

/-- A coordinate of floats, in any encoding, is not refused. -/
theorem normalizeCoord_typed (h : x.Offers b coord.value ws) (hpos : 0 < ws.length) :
    (x.quiet F).Ensures (normalizeCoord coord) b fun _ _ => True := by
  by_cases he : coord.encoding = .f32
  · unfold normalizeCoord
    rw [if_pos he, pure_bind]
    refine (dereference_ensures hF h).bind fun id b₁ _ hid => Ensures.get_bind ?_
    rw [hid.typed.isFloat]
    exact Ensures.pure _ trivial
  · exact (normalizeCoord_ensures hF he h hpos).imp fun _ _ _ _ => trivial

end Passage

namespace Builder

variable {F : Fault → Prop} {b b' b'' : Builder} {texel : Ref} {before : List Inst} {i : Inst}

/-- The table grew, and code was added. -/
structure Extended (b b' : Builder) : Prop where
  table : TableLe b b'
  body : ∃ code, b'.body.toList = b.body.toList ++ code

theorem Extended.refl (b : Builder) : b.Extended b :=
  ⟨TableLe.refl b, [], (List.append_nil _).symm⟩

theorem Extended.trans (h : b.Extended b') (h' : b'.Extended b'') : b.Extended b'' := by
  obtain ⟨code, hcode⟩ := h.body
  obtain ⟨code', hcode'⟩ := h'.body
  exact ⟨h.table.trans h'.table, code ++ code', by rw [hcode', hcode, List.append_assoc]⟩

/-- Actions that add code, which need not run. -/
def extending (F : Fault → Prop) : Discipline Builder where
  keeps b := b.definitions.size < UInt32.size
  leads := Extended
  faults := F
  refl := Extended.refl
  trans := Extended.trans

theorem extending_of_quiet {α : Type} {a : Build α} {Q : α → Builder → Prop}
    (h : ((Passage.blank b).quiet F).Ensures a b Q) : (extending F).Ensures a b Q :=
  h.weaken Passage.keeps_blank (fun _ _ hk hq _ => ⟨hk.size, hq.table, hq.body⟩) fun _ hf => hf

/-- Any instruction with a result. -/
theorem emit_extends (hF : F .idsExhausted) (op : Opcode) (t : Ref) (ops : List UInt32) :
    (extending F).Ensures (emit op t ops) b fun id b' => b'.definition? id = some (.value t) ∧
      b'.body.toList = b.body.toList ++ [⟨op, some t, some id, ops⟩] := by
  by_cases hlt : b.definitions.size + 1 < UInt32.size
  · refine Ensures.of_ok (Environment.emit_of_lt op t ops hlt) fun hk => ?_
    have hbody : (({ b with definitions := b.definitions.push (.value t) } : Builder).append
        ⟨op, some t, some ⟨.ofNat b.definitions.size⟩, ops⟩).body.toList = b.body.toList ++
        [⟨op, some t, some ⟨.ofNat b.definitions.size⟩, ops⟩] := Array.toList_push
    refine ⟨?_, ⟨tableLe_push (.value t) rfl, _, hbody⟩, definition?_next rfl hk, hbody⟩
    show (b.definitions.push _).size < _
    rwa [Array.size_push]
  · exact Ensures.of_error (Environment.emit_of_not_lt op t ops hlt) hF

/-- Code was added whose last instruction samples an image, and the texel is its result. -/
structure Samples (b b' : Builder) (texel : Ref) (before : List Inst) (i : Inst) : Prop where
  body : b'.body.toList = b.body.toList ++ before ++ [i]
  opcode : i.opcode.isImageSample = true
  result : i.result = some texel
  value : ∃ t, b'.definition? texel = some (.value t) ∧ b'.Lanes t .f32 4

theorem Samples.carries (h : b.Samples b' texel before i) : b'.Carries texel .f32 4 := by
  obtain ⟨t, ht, hl⟩ := h.value
  exact ⟨t, typeOf?_eq_some.2 ⟨_, ht, rfl⟩, hl⟩

theorem rawTexel_samples (hF : F .idsExhausted) (texture : Ref) {coord : Coord} (lod : FetchLod)
    {n : Nat} (hcoord : b.OffersFloats coord.value n) (hn : 0 < n) :
    (extending F).Ensures (rawTexel texture coord lod) b fun texel b' =>
      ∃ before i, b.Samples b' texel before i := by
  unfold rawTexel
  refine (extending_of_quiet (Passage.normalizeCoord_typed hF (Passage.offers_blank hcoord)
    (by rwa [List.length_replicate]))).bind fun id b₁ e₁ _ => ?_
  rw [sampleImage_eq]
  refine (extending_of_quiet (((Passage.blank _).reckoning hF).floatVectorType_ensures 4)).bind fun vec b₂ e₂ hvec => ?_
  refine (extending_of_quiet (Passage.loadAny_ensures hF texture)).bind fun image b₃ e₃ _ => ?_
  refine (emit_extends hF _ _ _).imp fun texel b' e₄ h => ?_
  obtain ⟨before, hbefore⟩ := (e₁.trans (e₂.trans e₃)).body
  refine ⟨before, ⟨lod.opcode, some vec, some texel, image.word :: id.word :: lod.words⟩, ?_,
    lod.isImageSample_opcode, rfl, vec, h.1, ?_⟩
  · rw [h.2, hbefore]
  · exact hvec.lanes.mono (e₃.trans e₄).table

end Builder

/-! ## Conversions -/

section Conversions

variable {e : Encoding} {b b' : Builder} {value : Ref} {n : Nat}

theorem encodeValue_run (e : Encoding) (value : Ref) (b : Builder) : Emit.encodeValue e value b =
    (if e.isInteger && b.isFloat value then saturateTo value e
    else if e = .c10 then saturateFixed value else pure value : Build Ref) b :=
  rfl

/-- A store converts floats. -/
theorem encodeValue_of_float (h : b.Carries value .f32 n) : Emit.encodeValue e value b =
    if e.isInteger then saturateTo value e b else if e = .c10 then saturateFixed value b
      else .ok (value, b) := by
  rw [encodeValue_run, h.isFloat]
  cases e <;> rfl

/-- A store leaves integers alone. -/
theorem encodeValue_of_integer {k : ScalarKind} (he : e.isInteger = true) (h : b.Carries value k n)
    (hk : k ≠ .f32) : Emit.encodeValue e value b = .ok (value, b) := by
  rw [encodeValue_run, h.isFloat, decide_eq_false hk, Bool.and_false]
  cases e <;> first | rfl | cases he

/-- What a conversion gives is integers, as many as there were floats. -/
theorem saturateTo_carries (hsize : b.definitions.size < UInt32.size) (he : e.isInteger = true)
    (h : b.Carries value .f32 n) {id : Ref} (hrun : saturateTo value e b = .ok (id, b')) :
    b'.Carries id (Environment.integerKind e.isSigned) n := by
  have hblank : (Passage.blank b).Holds b value .f32 (List.replicate n 0) :=
    Passage.holds_blank (by rwa [List.length_replicate])
  obtain ⟨-, -, hid⟩ := (Passage.saturateTo_ensures (F := fun _ => True) trivial he hblank).result
    (Passage.keeps_blank hsize) hrun
  have htyped := hid.typed
  rwa [List.length_map, List.length_replicate] at htyped

theorem integerKind_ne_f32 (signed : Bool) : Environment.integerKind signed ≠ .f32 := by
  cases signed <;> decide

end Conversions

/-- A store after the value has been encoded. -/
def Emit.storeEncoded (dest : Operand) (mask : LaneMask) (count : UInt32) (encoded : Ref) : Emit Unit := do
  let _ ← uintType 32
  let _ ← floatType 32
  mask.lanes.forM fun lane => Emit.storeLane dest encoded count (.ofNat lane.val)

theorem store_eq {dest : Operand} {mask : LaneMask} (hmask : mask.isEmpty = false) (value : Ref)
    (s : Emitter) : Emit.store dest value mask s =
      (Emit.encodeValue dest.encoding value s.builder >>= fun r =>
        Emit.storeEncoded dest mask (s.builder.components value) r.1 ⟨r.2, s.registers⟩) := by
  unfold Emit.store
  rw [hmask]
  show ((Emit.encodeValue dest.encoding value s.builder >>= _) >>= _) = _
  cases Emit.encodeValue dest.encoding value s.builder <;> rfl

/-- A store of floats converts them itself if they have not been converted before. -/
theorem store_saturated {dest : Operand} {mask : LaneMask} {s : Emitter} {value : Ref} {n : Nat}
    (hmask : mask.isEmpty = false) (hsize : s.builder.definitions.size < UInt32.size)
    (he : dest.encoding.isInteger = true) (h : s.builder.Carries value .f32 n) :
    (saturateTo value dest.encoding s.builder >>= fun r =>
      Emit.store dest r.1 mask ⟨r.2, s.registers⟩) = Emit.store dest value mask s := by
  rw [store_eq hmask value s, encodeValue_of_float h, if_pos he]
  cases hrun : saturateTo value dest.encoding s.builder with
  | error f => rfl
  | ok r =>
    obtain ⟨id, b'⟩ := r
    have hid := saturateTo_carries hsize he h hrun
    -- the lanes are as many as before
    have hcount : b'.components id = s.builder.components value :=
      UInt32.toNat_inj.1 (hid.components.trans h.components.symm)
    show Emit.store dest id mask ⟨b', s.registers⟩ = _
    rw [store_eq hmask id, encodeValue_of_integer he hid (integerKind_ne_f32 _)]
    show Emit.storeEncoded dest mask (b'.components id) id _ = _
    rw [hcount]
    rfl

theorem fetchInto_run (e : Encoding) (texture : Ref) (coord : Coord) (lod : FetchLod) (dest : Operand)
    (mask : LaneMask) (s : Emitter) : fetchInto e texture coord lod dest mask s =
      (rawTexel texture coord lod s.builder >>= fun r =>
        (if e.isInteger then saturateTo r.1 e r.2 else .ok r) >>= fun r' =>
          Emit.store dest r'.1 mask ⟨r'.2, s.registers⟩) := by
  show ((fetch texture coord e lod s.builder >>= _) >>= _) = _
  rw [fetch_eq]
  show (((rawTexel texture coord lod s.builder >>= _) >>= _) >>= _) = _
  cases rawTexel texture coord lod s.builder with
  | error f => rfl
  | ok r =>
    show (((if e.isInteger then saturateTo r.1 e else pure r.1 : Build Ref) r.2 >>= _) >>= _) = _
    cases e.isInteger with
    | false => rfl
    | true =>
      show ((saturateTo r.1 e r.2 >>= _) >>= _) = (saturateTo r.1 e r.2 >>= _)
      cases saturateTo r.1 e r.2 <;> rfl

/-! ## Stored texels -/

theorem Machine.memory_answer (texels : Texels) (m : Machine) (i : Inst) (call : SampleCall) :
    (m.answer texels i call).memory = m.memory :=
  memory_define ..

/-- A request gives its id the texel and leaves the variables alone. -/
theorem Machine.ready_answer {m : Machine} {b : Builder} (texels : Texels) {i : Inst} {texel : Ref}
    (call : SampleCall) (hm : m.Ready b) (hresult : i.result = some texel)
    (hvalue : ∃ t, b.definition? texel = some (.value t)) :
    (m.answer texels i call).Ready b ∧ (m.answer texels i call).value? b texel =
      some (.lanes .f32 (texels m.samples.size call).lanes) := by
  obtain ⟨t, ht⟩ := hvalue
  refine ⟨⟨fun id t' w hid => ?_, ?_⟩, ?_⟩
  · unfold answer
    rw [values_define _ _ hresult, if_neg]
    · exact hm.constants id t' w hid
    · rintro rfl
      rw [ht] at hid
      cases hid
  · rw [read_of_memory (memory_answer texels m i call)]
    exact hm.privates
  · unfold value? answer
    rw [values_define _ _ hresult, if_pos rfl]
    rfl

/-- The lanes of a texel that a store uses are those of the mask. -/
theorem wordFor_texel (e : Encoding) (texel : Texel) (lane : Fin 4) :
    e.wordFor .f32 texel.lanes lane.val = e.encodeNumber (texel.lanes.getD lane.val 0) := by
  have hlane : min lane.val (texel.lanes.length - 1) = lane.val :=
    Nat.min_eq_left (Nat.le_of_lt_succ lane.isLt)
  unfold Encoding.wordFor Encoding.storedWord
  rw [if_pos rfl, hlane]

section Stores

variable {dest : Operand} {mask : LaneMask} {s s' : Emitter} {texel : Ref} {F : Fault → Prop}
  (hF : F .idsExhausted) (hmul : F .overflow ∨ s.registers.slotsPerBank.toNat * 4 < UInt32.size)
  (hindex : dest.index.toNat + 3 < UInt32.size)

include hF hmul hindex

/-- A store of four floats in any passage. -/
theorem storeTexel_ensures {x : Passage} {xs : List UInt32} (h : x.Holds s.builder texel .f32 xs)
    (hlen : xs.length = 4) : (x.moving F).Ensures (Emit.store dest texel mask) s fun _ s' =>
      s'.Within x.whole → x.whole.Injective →
        x.state s' = { x.state s with
          registers := dest.placeLanes s.registers.slotsPerBank (x.words s)
            (fun lane => dest.encoding.wordFor .f32 xs lane.val) mask.lanes } :=
  Ledger.storeMask_ensures (L := x.ledger hF) (.inl rfl) hmul
    (.inr fun lane _ => Operand.inWords_of_index hindex lane) h (by rw [hlen]; decide) trivial

theorem storeTexel_stops (hsize : s.builder.definitions.size < UInt32.size) (hb : s.Backed)
    (h : s.builder.Carries texel .f32 4) {f : Fault} (hf : Emit.store dest texel mask s = .error f) :
    F f := by
  have hblank : (Passage.blank s.builder).Holds s.builder texel .f32 (List.replicate 4 0) :=
    Passage.holds_blank h
  exact (storeTexel_ensures hF hmul hindex hblank rfl).fault (Passage.tends_blank hsize hb) hf

/-- The code of a store after a request stores the texel that was requested. -/
theorem storeTexel_runs (hsize : s.builder.definitions.size < UInt32.size) (hb : s.Backed)
    {b : Builder} {before : List Inst} {i : Inst} (h : b.Samples s.builder texel before i)
    (hs : Emit.store dest texel mask s = .ok ((), s')) :
    ∃ after, s'.builder.body.toList = b.body.toList ++ before ++ i :: after ∧
      ∀ (t : Emitter) (texels : Texels) (m : Machine) (call : SampleCall), s'.Within t → t.Injective →
        m.Ready t.builder → m.sampleCall t.builder i = .ok call →
        ∃ m', m.steps t.builder texels (i :: after) = (m', none) ∧ m'.Ready t.builder ∧
          m'.samples = m.samples.push call ∧
          m'.wordsIn t = dest.placeLanes s.registers.slotsPerBank (m.wordsIn t)
            (fun lane => dest.encoding.encodeNumber
              ((texels m.samples.size call).lanes.getD lane.val 0)) mask.lanes := by
  have hblank : (Passage.blank s.builder).Holds s.builder texel .f32 (List.replicate 4 0) :=
    Passage.holds_blank h.carries
  obtain ⟨-, hmoves, -⟩ := (storeTexel_ensures hF hmul hindex hblank rfl).result
    (Passage.tends_blank hsize hb) hs
  obtain ⟨after, hafter⟩ := hmoves.leads.body
  refine ⟨after, by rw [hafter, h.body, List.append_assoc, List.singleton_append], ?_⟩
  intro t texels m call ht hinj hm hcall
  obtain ⟨vec, hvec, -⟩ := h.value
  have hle := hmoves.within.table.trans ht.table
  obtain ⟨hready, hvalue⟩ := Machine.ready_answer texels call hm h.result ⟨vec, hle.definition hvec⟩
  have hstep : m.step t.builder texels i = .ok (m.answer texels i call) := by
    rw [Machine.step_of_isImageSample h.opcode, hcall]
    rfl
  -- the rest runs from the machine that was given the texel
  have hholds : (Passage.behind s.builder t texels (m.answer texels i call)).Holds s.builder texel .f32
      (texels m.samples.size call).lanes := Passage.holds_behind h.carries hvalue
  obtain ⟨htends, hmoves', hwords⟩ := (storeTexel_ensures hF hmul hindex hholds rfl).result
    (Passage.tends_behind hsize hb hready) hs
  have hwords := congrArg ShaderState.registers (hwords ht hinj)
  rw [Passage.words_behind] at hwords
  refine ⟨_, ?_, htends.ready ht.table, ?_, ?_⟩
  · rw [Machine.steps_cons hstep]
    exact Passage.steps_behind htends.keeps hafter ht.table
  · rw [hmoves'.leads.samples ht.table, Passage.after_behind]
    exact Machine.samples_define ..
  · have hbefore : (m.answer texels i call).wordsIn t = m.wordsIn t := by
      unfold Machine.wordsIn
      rw [Machine.read_of_memory (Machine.memory_answer texels m i call)]
    rw [hbefore, funext (wordFor_texel dest.encoding _)] at hwords
    exact hwords

end Stores

/-! ## Ids that a fetch and a store take -/

theorem Build.Takes.sampleImage (texture coord : Ref) (lod : FetchLod) :
    Takes 4 (sampleImage texture coord lod) := by
  rw [sampleImage_eq]
  exact (floatVectorType 4).bind fun _ => (load texture).bind fun _ => emit

theorem fetch_f32 (texture : Ref) (coord : Coord) (lod : FetchLod) :
    fetch texture coord .f32 lod = rawTexel texture coord lod := by
  rw [fetch_eq]
  exact bind_pure _

namespace Emit.Takes

variable {F G : Fault → Prop} {n : Nat}

theorem weaken {α : Type} {a : Emit α} (ha : Takes F n a) (h : ∀ f, F f → G f) : Takes G n a where
  within := ha.within
  sized := ha.sized
  stops hs := (ha.stops hs).imp_left (h _)

/-- Besides for want of ids, an action that fetches and stores stops at an address that is no word or at
a coordinate that is not of floats. -/
theorem fetchInto (texture : Ref) (coord : Coord) (lod : FetchLod) (dest : Operand) (mask : LaneMask) :
    Takes (fun f => f = .overflow ∨ ∃ id, f = .coordNotFloat id) 217
      (fetchInto .f32 texture coord lod dest mask) := by
  unfold Lowering.fetchInto
  rw [fetch_f32]
  unfold rawTexel
  rw [lift_bind]
  refine bind (n := 68) ?_ fun texel => (store dest texel mask).weaken fun f hf => .inl hf
  exact (normalizeCoord (fun id => .inr ⟨id, rfl⟩) coord).bind fun id => lift (.sampleImage _ _ _)

end Emit.Takes

/-! ## Fetches and stores together -/

theorem Emitter.Backed.mono {s : Emitter} {b : Builder} (h : s.Backed) (hle : TableLe s.builder b) :
    Emitter.Backed ⟨b, s.registers⟩ :=
  fun slot id hid => (h slot id hid).mono hle

theorem Emitter.Allotted.backed {s : Emitter} (h : s.Allotted) : s.Backed :=
  fun slot id hid => (h.slots slot id hid).2

theorem Emitter.fetchInto_allots {e : Encoding} {texture : Ref} {coord : Coord} {lod : FetchLod}
    {dest : Operand} {mask : LaneMask} {s : Emitter} :
    allotting.Ensures (fetchInto e texture coord lod dest mask) s fun _ _ => True :=
  (lift_allots (.fetch _ _ _ _)).bind fun _ _ _ _ => allotting_transfers.storeMask trivial

section Fetches

variable {dest : Operand} {mask : LaneMask} {s s' : Emitter} {texture : Ref} {coord : Coord}
  {lod : FetchLod} {n : Nat} (hsize : s.builder.definitions.size < UInt32.size)
  (hcoord : s.builder.OffersFloats coord.value n) (hn : 0 < n)

include hsize hcoord hn

/-- A fetch without conversion, with what its last instruction is. -/
theorem exists_samples {texel : Ref} {b : Builder}
    (h : rawTexel texture coord lod s.builder = .ok (texel, b)) :
    b.definitions.size < UInt32.size ∧ TableLe s.builder b ∧
      ∃ before i, s.builder.Samples b texel before i := by
  obtain ⟨hsize', hext, hsamples⟩ := (Builder.rawTexel_samples (F := fun _ => True) trivial texture lod
    hcoord hn).result hsize h
  exact ⟨hsize', hext.table, hsamples⟩

/-- It does not matter whether the fetch or the store converts. -/
theorem fetchInto_eq (hmask : mask.isEmpty = false) : fetchInto dest.encoding texture coord lod dest mask s =
    fetchInto .f32 texture coord lod dest mask s := by
  rw [fetchInto_run, fetchInto_run]
  cases hraw : rawTexel texture coord lod s.builder with
  | error f => rfl
  | ok r =>
    obtain ⟨texel, b⟩ := r
    obtain ⟨hsize', -, before, i, hsamples⟩ := exists_samples hsize hcoord hn hraw
    show ((if dest.encoding.isInteger then saturateTo texel dest.encoding b else .ok (texel, b)) >>= _) =
      Emit.store dest texel mask ⟨b, s.registers⟩
    by_cases he : dest.encoding.isInteger = true
    · rw [if_pos he]
      exact store_saturated (s := ⟨b, s.registers⟩) hmask hsize' he hsamples.carries
    · rw [if_neg he]
      rfl

/-- What a fetch has converted a store leaves alone. -/
theorem encodeValue_of_fetch {e : Encoding} (he : e.isInteger = true) {id : Ref} {b : Builder}
    (h : fetch texture coord e lod s.builder = .ok (id, b)) : Emit.encodeValue e id b = .ok (id, b) := by
  rw [fetch_eq] at h
  obtain ⟨texel, b₁, hraw, h⟩ := exists_of_run_bind h
  rw [if_pos he] at h
  obtain ⟨hsize', -, before, i, hsamples⟩ := exists_samples hsize hcoord hn hraw
  exact encodeValue_of_integer he (saturateTo_carries hsize' he hsamples.carries h)
    (integerKind_ne_f32 _)

variable (hb : s.Backed) (hindex : dest.index.toNat + 3 < UInt32.size)

include hb hindex

theorem fetchInto_stops {f : Fault} (h : fetchInto .f32 texture coord lod dest mask s = .error f) :
    f = .idsExhausted ∧ UInt32.size ≤ s.builder.definitions.size + 217 ∨
      f = .overflow ∧ UInt32.size ≤ s.registers.slotsPerBank.toNat * 4 := by
  have hids := (Emit.Takes.fetchInto texture coord lod dest mask).stops h
  have hstop : f = .idsExhausted ∨ f = .overflow ∧ UInt32.size ≤ s.registers.slotsPerBank.toNat * 4 := by
    rw [fetchInto_run] at h
    rcases error_of_bind h with hraw | ⟨⟨texel, b⟩, hraw, hstore⟩
    · exact .inl ((Builder.rawTexel_samples (F := (· = .idsExhausted)) rfl texture lod hcoord hn).fault
        hsize hraw)
    · obtain ⟨hsize', htable, before, i, hsamples⟩ := exists_samples hsize hcoord hn hraw
      refine storeTexel_stops (s := ⟨b, s.registers⟩)
        (F := fun f => f = .idsExhausted ∨
          f = .overflow ∧ UInt32.size ≤ s.registers.slotsPerBank.toNat * 4)
        (.inl rfl) ?_ hindex hsize' (hb.mono htable) hsamples.carries hstore
      by_cases hmul : s.registers.slotsPerBank.toNat * 4 < UInt32.size
      · exact .inr hmul
      · exact .inl (.inr ⟨rfl, Nat.not_lt.1 hmul⟩)
  rcases hstop with rfl | hover
  · exact .inl (hids.resolve_left (by rintro (hf | ⟨id, hf⟩) <;> cases hf))
  · exact .inr hover

/-- The code requests a texel and stores its lanes. -/
theorem fetchInto_runs (h : fetchInto .f32 texture coord lod dest mask s = .ok ((), s')) :
    ∃ before i after, s'.builder.body.toList = s.builder.body.toList ++ before ++ i :: after ∧
      i.opcode.isImageSample = true ∧
      ∀ (t : Emitter) (texels : Texels) (m : Machine) (call : SampleCall), s'.Within t → t.Injective →
        m.Ready t.builder → m.sampleCall t.builder i = .ok call →
        ∃ m', m.steps t.builder texels (i :: after) = (m', none) ∧ m'.Ready t.builder ∧
          m'.samples = m.samples.push call ∧
          m'.wordsIn t = dest.placeLanes s.registers.slotsPerBank (m.wordsIn t)
            (fun lane => dest.encoding.encodeNumber
              ((texels m.samples.size call).lanes.getD lane.val 0)) mask.lanes := by
  rw [fetchInto_run] at h
  obtain ⟨⟨texel, b⟩, hraw, hstore⟩ := exists_of_bind h
  obtain ⟨hsize', htable, before, i, hsamples⟩ := exists_samples hsize hcoord hn hraw
  obtain ⟨after, hbody, hruns⟩ := storeTexel_runs (s := ⟨b, s.registers⟩) (F := fun _ => True) trivial
    (.inl trivial) hindex hsize' (hb.mono htable) hsamples hstore
  exact ⟨before, i, after, hbody, hsamples.opcode, hruns⟩

end Fetches

/-- From a context that may have been used for anything, a fetch that converts and a store of what it
gives leave the same context as a fetch that does not and a store that converts. What was converted is
stored as it is, and what was not is converted by the store. The code requests one texel and replaces
the fields of the destination by its lanes, encoded. It can be emitted unless ids run out, of which it
takes at most 217, or the components of a bank cannot be counted. -/
theorem fetchInto_alike {settings : LiftSettings} {samplers : List SamplerDesc} {uses : List Context.Use}
    {c₀ c : Context} (h₀ : Context.start settings samplers = .ok c₀)
    (h : uses.forM Context.Use.run c₀ = .ok ((), c)) {coord : Coord} {n : Nat}
    (hcoord : c.builder.OffersFloats coord.value n) (hn : 0 < n) (texture : Ref) (lod : FetchLod)
    {dest : Operand} (hindex : dest.index.toNat + 3 < UInt32.size) {mask : LaneMask}
    (hmask : mask.isEmpty = false) :
    (liftM (fetchInto dest.encoding texture coord lod dest mask) : Lower Unit) c =
      (liftM (fetchInto .f32 texture coord lod dest mask) : Lower Unit) c ∧
    (∀ f, (liftM (fetchInto .f32 texture coord lod dest mask) : Lower Unit) c = .error f →
      f = .idsExhausted ∧ UInt32.size ≤ c.builder.definitions.size + 217 ∨
      f = .overflow ∧ UInt32.size ≤ settings.registerSlots.toNat * 4) ∧
    (∀ id b, fetch texture coord dest.encoding lod c.builder = .ok (id, b) →
      dest.encoding.isInteger = true → Emit.encodeValue dest.encoding id b = .ok (id, b)) ∧
    (∀ texel b, fetch texture coord .f32 lod c.builder = .ok (texel, b) →
      Emit.encodeValue dest.encoding texel b =
        if dest.encoding.isInteger then saturateTo texel dest.encoding b
        else if dest.encoding = .c10 then saturateFixed texel b else .ok (texel, b)) ∧
    ∀ c', (liftM (fetchInto .f32 texture coord lod dest mask) : Lower Unit) c = .ok ((), c') →
      ∃ before i after, c'.builder.body.toList = c.builder.body.toList ++ before ++ i :: after ∧
        i.opcode.isImageSample = true ∧
        ∀ (t : Emitter) (texels : Texels) (m : Machine) (call : SampleCall),
          c'.toEmitter.Within t → t.Injective → m.Ready t.builder →
          m.sampleCall t.builder i = .ok call →
          ∃ m', m.steps t.builder texels (i :: after) = (m', none) ∧ m'.Ready t.builder ∧
            m'.samples = m.samples.push call ∧
            m'.wordsIn t = dest.placeLanes settings.registerSlots (m.wordsIn t)
              (fun lane => dest.encoding.encodeNumber
                ((texels m.samples.size call).lanes.getD lane.val 0)) mask.lanes := by
  obtain ⟨hk₀, hregisters, -⟩ := Context.start_arranged h₀
  obtain ⟨hk, hl, -⟩ := (Context.uses_arrange uses).result hk₀ h
  have hslots : c.registers.slotsPerBank = settings.registerSlots := by rw [hl.sized, hregisters]
  have hsize := hk.emitter.size
  have hbacked := hk.emitter.backed
  have hlift (a : Emit Unit) : (liftM a : Lower Unit) c =
      (a c.toEmitter >>= fun r => .ok (r.1, c.emitting r.2)) := rfl
  refine ⟨?_, fun f hf => ?_, fun id b hfetch he => encodeValue_of_fetch hsize hcoord hn he hfetch,
    fun texel b hfetch => ?_, fun c' hc' => ?_⟩
  · rw [hlift, hlift, fetchInto_eq hsize hcoord hn hmask]
  · rw [hlift] at hf
    rcases error_of_bind hf with hf | ⟨_, _, hf⟩
    · rw [← hslots]
      exact fetchInto_stops hsize hcoord hn hbacked hindex hf
    · cases hf
  · rw [fetch_f32] at hfetch
    obtain ⟨-, -, before, i, hsamples⟩ := exists_samples hsize hcoord hn hfetch
    exact encodeValue_of_float hsamples.carries
  · obtain ⟨s', hs', rfl⟩ := Lower.exists_of_lift hc'
    rw [← hslots]
    exact fetchInto_runs hsize hcoord hn hbacked hindex hs'

/-- The start of a shader with one sampler. -/
def oneSampler : Except Fault Context :=
  Context.start { registerSlots := 4 } [{ index := 6, componentCount := 4, encoding := .u8 }]

/-- The first input of that shader. -/
def firstInput : Coord := ⟨⟨13⟩, .f32⟩

/-- The bytes of the last component of a slot. -/
def lastBytes : Operand := { index := 3, encoding := .u8 }

/-- All lanes but the second. -/
def threeLanes : LaneMask := ⟨0b1101⟩

/-- Three bytes from a texel at the input. -/
def fetchBytes (numbers : Encoding) : Lower Unit :=
  liftM (fetchInto numbers ⟨6⟩ firstInput .implicit lastBytes threeLanes)

/-- The machine that has loaded the coordinate and the image. -/
def imageLoaded : Machine where
  values := ((∅ : WordMap Value).insert 14 (.lanes .f32 [Single.one, Single.one, 0, 0])).insert 15
    (.image ⟨6⟩)

theorem imageLoaded_wordsIn {t : Emitter} (h : t.Backed) : imageLoaded.wordsIn t = fun _ => 0 := by
  funext p
  unfold Machine.wordsIn
  cases hid : t.registers.variableOf? p.slot with
  | none => rfl
  | some id =>
    obtain ⟨type, hd, htype⟩ := h _ _ hid
    have hread : imageLoaded.read t.builder id = .lanes .f32 (List.replicate 4 0) := by
      unfold Machine.read Machine.contents? imageLoaded
      rw [Std.ExtTreeMap.getElem?_empty]
      exact Environment.initialValue_of_type hd htype (by decide)
    show (imageLoaded.read t.builder id).bits.getD _ 0 = 0
    rw [hread]
    exact List.getD_replicate 0 (Nat.mod_lt _ (by decide))

theorem imageLoaded_ready {b : Builder} {t₁ t₂ : Ref} (h14 : b.definition? ⟨14⟩ = some (.value t₁))
    (h15 : b.definition? ⟨15⟩ = some (.value t₂)) : imageLoaded.Ready b := by
  refine Machine.ready_of_memory (fun id t w hd => ?_) fun word v hv => ?_
  · have hne {k : UInt32} {t' : Ref} (hk : b.definition? ⟨k⟩ = some (.value t')) : k ≠ id.word := by
      rintro rfl
      rw [hd] at hk
      cases hk
    unfold imageLoaded
    rw [WordMap.getElem?_insert, if_neg (hne h15), WordMap.getElem?_insert, if_neg (hne h14)]
    exact Std.ExtTreeMap.getElem?_empty
  · cases Std.ExtTreeMap.getElem?_empty.symm.trans hv

theorem imageLoaded_sampleCall (b : Builder) :
    imageLoaded.sampleCall b ⟨.imageSampleImplicitLod, some ⟨11⟩, some ⟨16⟩, [15, 14]⟩ =
      .ok ⟨⟨6⟩, .imageSampleImplicitLod, [Single.one, Single.one, 0, 0], none, none⟩ := by
  have himage : imageLoaded.lookup b ⟨15⟩ = .ok (.image ⟨6⟩) := by
    unfold Machine.lookup Machine.value? imageLoaded
    rw [WordMap.getElem?_insert, if_pos rfl]
    rfl
  have hcoord : imageLoaded.lookup b ⟨14⟩ = .ok (.lanes .f32 [Single.one, Single.one, 0, 0]) := by
    unfold Machine.lookup Machine.value? imageLoaded
    rw [WordMap.getElem?_insert, if_neg (by decide), WordMap.getElem?_insert, if_pos rfl]
    rfl
  unfold Machine.sampleCall
  rw [Machine.operand_of_lookup rfl himage, Machine.floats_of_lookup rfl hcoord]
  rfl

/-- Of the texel `(300, 1, -5, 7)`, three lanes are stored as bytes. -/
theorem fetchInto_alike_bytes : ∃ c₀ c c' before i after m', oneSampler = .ok c₀ ∧
    [Context.Use.input 0].forM Context.Use.run c₀ = .ok ((), c) ∧
    c.builder.OffersFloats firstInput.value 4 ∧ lastBytes.index.toNat + 3 < UInt32.size ∧
    threeLanes.isEmpty = false ∧ fetchBytes .u8 c = .ok ((), c') ∧ fetchBytes .f32 c = .ok ((), c') ∧
    c'.builder.body.toList = c.builder.body.toList ++ before ++ i :: after ∧
    imageLoaded.steps c'.builder
      (fun _ _ => ⟨Single.ofInt 300, Single.one, Single.ofInt (-5), Single.ofInt 7⟩) (i :: after) =
      (m', none) ∧
    m'.wordsIn c'.toEmitter ⟨.temp, Window.primary, 3⟩ = 0x070000FF := by
  have hevaluated : (oneSampler >>= [Context.Use.input 0].forM Context.Use.run).toOption.map (fun r =>
      (([⟨13⟩, ⟨12⟩, ⟨11⟩, ⟨2⟩] : List Ref).map r.2.builder.definition?,
        (fetchBytes .f32 r.2).toOption.map fun r' =>
          (([⟨14⟩, ⟨15⟩] : List Ref).map r'.2.builder.definition?,
            r'.2.builder.body.toList.filter fun i => i.opcode.isImageSample))) =
      some ([some (.var ⟨12⟩ .input), some (.type (.pointer .input ⟨11⟩)),
          some (.type (.vector ⟨2⟩ 4)), some (.type (.float 32))],
        some ([some (.value ⟨11⟩), some (.value ⟨4⟩)],
          [⟨.imageSampleImplicitLod, some ⟨11⟩, some ⟨16⟩, [15, 14]⟩])) := by
    decide +kernel
  obtain ⟨⟨_, c⟩, hrun, hparts⟩ := exists_of_toOption_map hevaluated
  obtain ⟨c₀, h₀, h⟩ := exists_of_bind hrun
  obtain ⟨htypes, hfetch⟩ := Prod.mk.inj hparts
  obtain ⟨⟨_, c'⟩, hc', hcode⟩ := exists_of_toOption_map hfetch
  obtain ⟨hvalues, hrequests⟩ := Prod.mk.inj hcode
  simp only [List.map_cons, List.cons.injEq] at htypes hvalues
  obtain ⟨hinput, hpointer, hvector, hfloat, -⟩ := htypes
  obtain ⟨h14, h15, -⟩ := hvalues
  have hvec : c.builder.LaneType ⟨11⟩ .f32 4 :=
    .inr ⟨by decide, _, typeDecl?_eq_some.2 hvector, typeDecl?_eq_some.2 hfloat⟩
  have hcoord : c.builder.OffersFloats firstInput.value 4 :=
    .inr ⟨_, _, _, typeOf?_eq_some.2 ⟨_, hinput, rfl⟩, typeDecl?_eq_some.2 hpointer, hvec.lanes⟩
  have hindex : lastBytes.index.toNat + 3 < UInt32.size := by decide
  have hmask : threeLanes.isEmpty = false := by decide
  obtain ⟨hsame, -, -, -, hstored⟩ :=
    fetchInto_alike h₀ h hcoord (by decide) ⟨6⟩ .implicit hindex hmask
  obtain ⟨before, i, after, hbody, hop, hsteps⟩ := hstored c' hc'
  -- the only request of the code
  have hi : i = ⟨.imageSampleImplicitLod, some ⟨11⟩, some ⟨16⟩, [15, 14]⟩ := by
    have hmem : i ∈ c'.builder.body.toList.filter fun i => i.opcode.isImageSample :=
      List.mem_filter.2 ⟨by rw [hbody]; exact List.mem_append_right _ List.mem_cons_self, hop⟩
    rw [hrequests] at hmem
    exact List.mem_singleton.1 hmem
  have hallots : c'.toEmitter.Allotted := by
    obtain ⟨s', hs', rfl⟩ := Lower.exists_of_lift hc'
    obtain ⟨hk₀, -, -⟩ := Context.start_arranged h₀
    obtain ⟨hk, -, -⟩ := (Context.uses_arrange _).result hk₀ h
    exact (Emitter.fetchInto_allots.result hk.emitter hs').1
  obtain ⟨m', hrun', -, -, hwords⟩ := hsteps c'.toEmitter
    (fun _ _ => ⟨Single.ofInt 300, Single.one, Single.ofInt (-5), Single.ofInt 7⟩) imageLoaded _
    (.refl _) hallots.injective (imageLoaded_ready h14 h15) (hi ▸ imageLoaded_sampleCall _)
  refine ⟨c₀, c, c', before, i, after, m', h₀, h, hcoord, hindex, hmask, hsame.trans hc', hc', hbody,
    hrun', ?_⟩
  rw [hwords, imageLoaded_wordsIn hallots.backed]
  decide +kernel

end TextureLift
