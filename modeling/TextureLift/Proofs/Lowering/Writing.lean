import TextureLift.Proofs.Lowering.Reading

/-!
# Stores in a passage

The code of a store replaces the fields of the lanes that it stores, from any state of the machine and
wherever it stands in a module:

    store op value mask  leaves the registers
      op.placeLanes slots r words mask.lanes

where `words` has the encoded lanes of the value. No other bit of any register changes.
-/

namespace TextureLift

open Builder Build Discipline Lowering Number

theorem Operand.toNat_element (op : Operand) (lane : Fin 4) :
    (UInt32.ofNat lane.val / op.encoding.lanesPerComponent).toNat =
      lane.val / op.encoding.lanesPerComponent.toNat := by
  rw [UInt32.toNat_div, UInt32.toNat_ofNat_of_lt' (Nat.lt_trans lane.isLt (by decide))]

/-- The elements of all lanes have words as indices if there are three more words. -/
theorem Operand.inWords_of_index {op : Operand} (h : op.index.toNat + 3 < UInt32.size) (lane : Fin 4) :
    op.InWords (.ofNat lane.val) := by
  have hle := Nat.div_le_self lane.val op.encoding.lanesPerComponent.toNat
  unfold Operand.InWords
  rw [op.toNat_element]
  omega

/-- A store sets the field of each lane that has storage to the low bits of what the value has for the
lane, and leaves all other bits of all registers as they are. It fails only for want of ids, of which it
takes at most 149. -/
theorem store_writes {op : Operand} {mask : LaneMask} {s : Emitter} {value : Ref} {k : ScalarKind}
    {n : Nat} (hsize : s.builder.definitions.size < UInt32.size)
    (hslots : s.registers.slotsPerBank < 0x40000000) (hindex : op.index.toNat + 3 < UInt32.size)
    (hb : s.Backed) (hvalue : s.builder.Carries value k n) (hpos : 1 ≤ n)
    (hk : k = .f32 ∨ op.encoding.isInteger = true) :
    (∀ f, Emit.store op value mask s = .error f →
      f = .idsExhausted ∧ UInt32.size ≤ s.builder.definitions.size + 149) ∧
    ∀ s', Emit.store op value mask s = .ok ((), s') →
      s.Within s' ∧ s'.Backed ∧ (s.Injective → s'.Injective) ∧
      (∀ lane : Fin 4, (op.target (.ofNat lane.val)).component.toNat =
        op.index.toNat + lane.val / op.encoding.lanesPerComponent.toNat) ∧
      ∃ code, s'.builder.body.toList = s.builder.body.toList ++ code ∧
        ∀ (t : Emitter) (texels : Texels) (m : Machine) (xs : List UInt32), s'.Within t →
          t.Injective → m.Ready t.builder → m.value? t.builder value = some (.lanes k xs) →
          xs.length = n →
          ∃ m', m.steps t.builder texels code = (m', none) ∧ m'.Ready t.builder ∧
            m'.samples = m.samples ∧
            (∀ lane ∈ mask.lanes,
              op.hasStorage s.registers.slotsPerBank (.ofNat lane.val) = true →
              ∀ j < op.encoding.bits.toNat,
                (m'.wordsIn t (op.target (.ofNat lane.val))).toNat.testBit
                    (op.fieldStart (.ofNat lane.val) + j) =
                  (op.encoding.storedWord k (xs.getD (min lane.val (n - 1)) 0)).toNat.testBit j) ∧
            ∀ p j, (∀ lane ∈ mask.lanes,
                ¬ op.Occupies s.registers.slotsPerBank (.ofNat lane.val) p j) →
              (m'.wordsIn t p).toNat.testBit j = (m.wordsIn t p).toNat.testBit j := by
  have hmul : s.registers.slotsPerBank.toNat * 4 < UInt32.size := by
    have h : s.registers.slotsPerBank.toNat < 0x40000000 := hslots
    show _ < 4294967296
    omega
  have hwords := Operand.inWords_of_index hindex
  have hstore (x : Passage) {ys : List UInt32} (hys : x.Holds s.builder value k ys)
      (hlen : ys.length = n) : (x.moving (· = .idsExhausted)).Ensures (Emit.store op value mask) s
        fun _ s' => s'.Within x.whole → x.whole.Injective →
          x.state s' = { x.state s with
            registers := op.placeLanes s.registers.slotsPerBank (x.words s)
              (fun lane => op.encoding.wordFor k ys lane.val) mask.lanes } :=
    Ledger.storeMask_ensures (L := x.ledger (F := (· = .idsExhausted)) rfl) hk (.inr hmul)
      (.inr fun lane _ => hwords lane) hys (hlen ▸ hpos) trivial
  -- the code is the same for all machines, so it may be taken from a passage without a run
  have hblank : (Passage.blank s.builder).Holds s.builder value k (List.replicate n 0) :=
    Passage.holds_blank (by rwa [List.length_replicate])
  have hfirst := hstore _ hblank List.length_replicate
  have htends := Passage.tends_blank hsize hb
  refine ⟨fun f hf => ?_, fun s' hrun => ?_⟩
  · obtain rfl : f = .idsExhausted := hfirst.fault htends hf
    exact ((Emit.Takes.store op value mask).stops hf).resolve_left (by decide)
  · obtain ⟨htends', hmoves, -⟩ := hfirst.result htends hrun
    obtain ⟨code, hcode⟩ := hmoves.leads.body
    refine ⟨hmoves.within, htends'.backed, hmoves.injective, fun lane => ?_, code, hcode,
      fun t texels m xs ht hinj hm hxs hlen => ?_⟩
    · rw [← op.toNat_element]
      exact (hwords lane).toNat_componentAt
    have hholds : (Passage.behind s.builder t texels m).Holds s.builder value k xs :=
      Passage.holds_behind (hlen ▸ hvalue) hxs
    obtain ⟨hkeeps, hmoves', hfinal⟩ :=
      (hstore _ hholds hlen).result (Passage.tends_behind hsize hb hm) hrun
    have hfinal := congrArg ShaderState.registers (hfinal ht hinj)
    rw [Passage.words_behind] at hfinal
    refine ⟨_, Passage.steps_behind hkeeps.keeps hcode ht.table, hkeeps.ready ht.table, ?_,
      fun lane hlane hs j hj => ?_, fun p j hp => ?_⟩
    · rw [hmoves'.leads.samples ht.table, Passage.after_behind]
    · have hoccupies : op.Occupies s.registers.slotsPerBank (.ofNat lane.val)
          (op.target (.ofNat lane.val)) (op.fieldStart (.ofNat lane.val) + j) :=
        ⟨hs, rfl, Nat.le_add_right _ _, Nat.add_lt_add_left hj _⟩
      refine (congrArg (fun r : Registers => (r _).toNat.testBit _) hfinal).trans ?_
      rw [Operand.testBit_placeLanes hwords mask.nodup_lanes hlane hoccupies, Nat.add_sub_cancel_left,
        Encoding.wordFor, hlen]
    · refine (congrArg (fun r : Registers => (r p).toNat.testBit j) hfinal).trans ?_
      exact Operand.testBit_placeLanes_outside hp

/-- The module with one variable, banks of one slot and a vector of four floats. -/
def oneVector : Emitter where
  builder.definitions := oneSlot.builder.definitions.push (.value ⟨2⟩)
  registers := ⟨1, oneSlot.registers.slots⟩

/-- The machine after four words were written to the variable and the vector was computed. -/
def oneVectorComputed : Machine where
  values := (∅ : WordMap Value).insert 5
    (.lanes .f32 [Single.one, Single.ofInt 2, Single.ofInt 3, Single.ofInt 4])
  memory := oneSlotWritten.memory

theorem oneVector_table : TableLe oneSlot.builder oneVector.builder :=
  tableLe_push _ rfl

theorem oneVector_backed : oneVector.Backed :=
  fun slot id h => (oneSlot_backed slot id h).mono oneVector_table

theorem oneVector_injective : oneVector.Injective := by
  intro slot slot' id h h'
  rw [(oneSlot_variable h).1, (oneSlot_variable h').1]

/-- Of three lanes of halves, one lands in the upper half of the last component and two are dropped. -/
theorem store_writes_half :
    oneVector.builder.definitions.size < UInt32.size ∧ oneVector.registers.slotsPerBank < 0x40000000 ∧
      oneVector.Backed ∧ oneVector.Injective ∧ oneVector.builder.Carries ⟨5⟩ .f32 4 ∧
      ∃ s' code m', Emit.store { index := 3, encoding := .f16 } ⟨5⟩ ⟨0b1110⟩ oneVector = .ok ((), s') ∧
        s'.builder.body.toList = code ∧
        oneVectorComputed.steps s'.builder (fun _ _ => ⟨0, 0, 0, 0⟩) code = (m', none) ∧
        (∀ j < 16, (m'.wordsIn s' ⟨.temp, Window.primary, 3⟩).toNat.testBit (16 + j) =
          (0x4000 : UInt32).toNat.testBit j) ∧
        ∀ j < 16, (m'.wordsIn s' ⟨.temp, Window.primary, 3⟩).toNat.testBit j =
          (4 : UInt32).toNat.testBit j := by
  have hsize : oneVector.builder.definitions.size < UInt32.size := by decide
  have hslots : oneVector.registers.slotsPerBank < 0x40000000 := by decide
  have hvalue : oneVector.builder.Carries ⟨5⟩ .f32 4 :=
    ⟨⟨2⟩, rfl, rfl, rfl, fun _ _ h => (by cases h), fun _ h => by cases h⟩
  refine ⟨hsize, hslots, oneVector_backed, oneVector_injective, hvalue, ?_⟩
  have hwrites := @store_writes { index := 3, encoding := .f16 } ⟨0b1110⟩ oneVector ⟨5⟩ .f32 4
  obtain ⟨hfail, hstore⟩ :=
    hwrites hsize hslots (by decide) oneVector_backed hvalue (by decide) (.inl rfl)
  obtain ⟨⟨_, s'⟩, hrun⟩ : ∃ r, Emit.store { index := 3, encoding := .f16 } ⟨5⟩ ⟨0b1110⟩ oneVector =
      .ok r := by
    cases hrun : Emit.store { index := 3, encoding := .f16 } ⟨5⟩ ⟨0b1110⟩ oneVector with
    | error f => exact absurd (hfail f hrun).2 (by decide)
    | ok r => exact ⟨r, rfl⟩
  obtain ⟨hwithin, -, hinj, -, code, hcode, h⟩ := hstore s' hrun
  have hready : oneVectorComputed.Ready s'.builder := by
    refine Machine.ready_of_memory (fun id t w hd => ?_) oneSlotWritten_lanes
    unfold oneVectorComputed
    rw [Std.ExtTreeMap.getElem?_insert, Std.ExtTreeMap.getElem?_empty, if_neg]
    intro h5
    obtain rfl : id = ⟨5⟩ := congrArg Ref.mk (Std.LawfulEqCmp.eq_of_compare h5).symm
    have hvector : oneVector.builder.definition? ⟨5⟩ = some (.value ⟨2⟩) := rfl
    rw [hwithin.table.definition hvector] at hd
    cases hd
  have hxs : oneVectorComputed.value? s'.builder ⟨5⟩ =
      some (.lanes .f32 [Single.one, Single.ofInt 2, Single.ofInt 3, Single.ofInt 4]) := by
    unfold Machine.value? oneVectorComputed
    rw [Std.ExtTreeMap.getElem?_insert_self]
    rfl
  obtain ⟨m', hsteps, -, -, hset, hkept⟩ := h s' (fun _ _ => ⟨0, 0, 0, 0⟩) oneVectorComputed _
    (.refl s') (hinj oneVector_injective) hready hxs rfl
  have hword : oneVectorComputed.wordsIn s' ⟨.temp, Window.primary, 3⟩ = 4 := by
    rw [Machine.wordsIn_of_variable (hwithin.slots _ ⟨4⟩ (by decide))]
    exact congrArg (fun v : Value => v.bits.getD 3 0) (oneSlotWritten_read s'.builder)
  have hlanes : ∀ lane ∈ (⟨0b1110⟩ : LaneMask).lanes,
      Operand.hasStorage { index := 3, encoding := .f16 } 1 (.ofNat lane.val) = false ∨
        Operand.fieldStart { index := 3, encoding := .f16 } (.ofNat lane.val) = 16 := by decide
  refine ⟨s', code, m', hrun, hcode, hsteps, ?_, fun j hj => ?_⟩
  · exact hset 1 (by decide) (by decide)
  · rw [hkept, hword]
    intro lane hlane hoccupies
    rcases hlanes lane hlane with hs | hstart
    · exact absurd (hs.symm.trans hoccupies.stored) (by decide)
    · have hlow := hoccupies.low
      omega

end TextureLift
