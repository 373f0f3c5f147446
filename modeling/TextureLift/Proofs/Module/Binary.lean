import Mathlib.Algebra.Group.Nat.Defs
import TextureLift.Proofs.Module.Scope

/-!
# Reading the binary form

The words of a module are read back in two steps. The high half of the first word of an instruction
says how many words the instruction has, so the words fall into chunks; the low half is the opcode,
which says whether a type and a result come before the operands:

    (∀ i ∈ code, i.Formed) → readInsts (code.flatMap Inst.words) = some code

Formed instructions have the type and the result that their opcode calls for, and few enough words
for the count to fit its 16 bits.
-/

namespace TextureLift

namespace Opcode

/-- The opcode with a number. -/
def ofNumber? (word : UInt32) : Option Opcode :=
  all.find? (·.number == word)

/-- Whether instructions name the type of their result. -/
def hasType : Opcode → Bool
  | constant | function | var => true
  | op => op.yields

/-- Whether instructions have a result. -/
def hasResult : Opcode → Bool
  | extInstImport | typeVoid | typeBool | typeInt | typeFloat | typeVector | typeImage
  | typeSampledImage | typePointer | typeFunction | constant | function | var | label => true
  | op => op.yields

theorem ofNumber?_number (op : Opcode) : ofNumber? op.number = some op := by
  cases op <;> rfl

theorem number_lt (op : Opcode) : op.number.toNat < 2 ^ 16 := by
  cases op <;> decide

theorem hasType_of_yields {op : Opcode} (h : op.yields) : op.hasType := by
  cases op <;> first | rfl | cases h

theorem hasResult_of_yields {op : Opcode} (h : op.yields) : op.hasResult := by
  cases op <;> first | rfl | cases h

end Opcode

/-! ## The reader -/

namespace Inst

/-- Takes an id off some words, if there is to be one. -/
def takeRef? (present : Bool) (words : List UInt32) : Option (Option Ref × List UInt32) :=
  match present, words with
  | false, words => some (none, words)
  | true, word :: words => some (some ⟨word⟩, words)
  | true, [] => none

/-- The instruction that has these words. -/
def ofWords? : List UInt32 → Option Inst
  | [] => none
  | head :: words => do
    let opcode ← Opcode.ofNumber? (head &&& 0xffff)
    let (resultType, words) ← takeRef? opcode.hasType words
    let (result, operands) ← takeRef? opcode.hasResult words
    return { opcode, resultType, result, operands }

end Inst

/-- The words of each instruction, by the counts in the high halves of the first words. There are
none if a count is zero or goes beyond the end. -/
def chunks (words : List UInt32) : Option (List (List UInt32)) :=
  match words with
  | [] => some []
  | head :: rest =>
    let count := (head >>> 16).toNat
    if 0 < count ∧ count - 1 ≤ rest.length then
      (chunks (rest.drop (count - 1))).map ((head :: rest.take (count - 1)) :: ·)
    else
      none
termination_by words.length
decreasing_by
  simp only [List.length_drop, List.length_cons]
  omega

/-- The instructions that have these words. -/
def readInsts (words : List UInt32) : Option (List Inst) :=
  (chunks words).bind (·.mapM Inst.ofWords?)

/-! ## Reading undoes writing -/

namespace Inst

/-- Type and result are there if the opcode says so, and the number of words fits the first word. -/
structure Formed (i : Inst) : Prop where
  type : i.resultType.isSome = i.opcode.hasType
  result : i.result.isSome = i.opcode.hasResult
  count : i.wordCount < 2 ^ 16

variable {i : Inst}

/-- The two halves of a first word. -/
theorem toNat_head {n : Nat} (hn : n < 2 ^ 16) (op : Opcode) :
    (UInt32.ofNat n <<< 16 ||| op.number).toNat = n * 2 ^ 16 + op.number.toNat := by
  have hshift : (UInt32.ofNat n <<< 16).toNat = n <<< 16 := by
    rw [UInt32.toNat_shiftLeft, UInt32.toNat_ofNat_of_lt' (by show n < 2 ^ 32; omega)]
    show n <<< 16 % 2 ^ 32 = n <<< 16
    rw [Nat.shiftLeft_eq]
    omega
  rw [UInt32.toNat_or, hshift, ← Nat.shiftLeft_add_eq_or_of_lt op.number_lt, Nat.shiftLeft_eq]

theorem toNat_head_shiftRight {n : Nat} (hn : n < 2 ^ 16) (op : Opcode) :
    ((UInt32.ofNat n <<< 16 ||| op.number) >>> 16).toNat = n := by
  have hop := op.number_lt
  rw [UInt32.toNat_shiftRight, toNat_head hn]
  show (n * 2 ^ 16 + op.number.toNat) >>> 16 = n
  rw [Nat.shiftRight_eq_div_pow]
  omega

theorem head_and {n : Nat} (hn : n < 2 ^ 16) (op : Opcode) :
    (UInt32.ofNat n <<< 16 ||| op.number) &&& 0xffff = op.number := by
  have hop := op.number_lt
  rw [← UInt32.toNat_inj, UInt32.toNat_and, toNat_head hn]
  show (n * 2 ^ 16 + op.number.toNat) &&& (2 ^ 16 - 1) = _
  rw [Nat.and_two_pow_sub_one_eq_mod]
  omega

theorem takeRef?_toList (r : Option Ref) (words : List UInt32) :
    takeRef? r.isSome (r.toList.map Ref.word ++ words) = some (r, words) := by
  cases r with
  | none => rfl
  | some r => rfl

theorem ofWords?_words (h : i.Formed) : ofWords? i.words = some i := by
  have hwords : i.resultWords ++ i.operands =
      i.resultType.toList.map Ref.word ++ (i.result.toList.map Ref.word ++ i.operands) := by
    unfold resultWords
    rw [List.map_append, List.append_assoc]
  unfold words ofWords?
  dsimp only
  rw [hwords, head_and h.count, Opcode.ofNumber?_number]
  show (takeRef? i.opcode.hasType _).bind _ = _
  rw [← h.type, takeRef?_toList]
  show (takeRef? i.opcode.hasResult _).bind _ = _
  rw [← h.result, takeRef?_toList]
  rfl

/-- The first chunk is the first instruction. -/
theorem chunks_words_append (h : i.Formed) (rest : List UInt32) :
    chunks (i.words ++ rest) = (chunks rest).map (i.words :: ·) := by
  have hlen : (i.resultWords ++ i.operands).length = i.wordCount - 1 := by
    unfold wordCount
    rw [List.length_append]
    omega
  have hpos : 0 < i.wordCount := by
    unfold wordCount
    omega
  show chunks (_ :: (i.resultWords ++ i.operands ++ rest)) = _
  rw [chunks]
  simp only [toNat_head_shiftRight h.count]
  have hle : i.wordCount - 1 ≤ (i.resultWords ++ i.operands ++ rest).length := by
    rw [List.length_append, hlen]
    omega
  rw [if_pos ⟨hpos, hle⟩, ← hlen, List.drop_left, List.take_left]
  rfl

end Inst

theorem chunks_flatMap {code : List Inst} (h : ∀ i ∈ code, i.Formed) :
    chunks (code.flatMap Inst.words) = some (code.map Inst.words) := by
  induction code with
  | nil =>
    rw [List.flatMap_nil, chunks]
    rfl
  | cons i code ih =>
    rw [List.flatMap_cons, Inst.chunks_words_append (h i List.mem_cons_self),
      ih fun j hj => h j (List.mem_cons_of_mem i hj)]
    rfl

/-- Formed instructions are read back from their words. -/
theorem readInsts_flatMap {code : List Inst} (h : ∀ i ∈ code, i.Formed) :
    readInsts (code.flatMap Inst.words) = some code := by
  unfold readInsts
  rw [chunks_flatMap h]
  show (code.map Inst.words).mapM Inst.ofWords? = some code
  induction code with
  | nil => rfl
  | cons i code ih =>
    rw [List.map_cons, List.mapM_cons, Inst.ofWords?_words (h i List.mem_cons_self),
      ih fun j hj => h j (List.mem_cons_of_mem i hj)]
    rfl

/-! ## Formed instructions -/

namespace Inst

variable {i : Inst}

theorem length_resultWords_le : i.resultWords.length ≤ 2 := by
  unfold resultWords
  rw [List.length_map, List.length_append]
  cases i.resultType <;> cases i.result <;> simp

/-- Instructions with few operands. -/
theorem formed_of_length (ht : i.resultType.isSome = i.opcode.hasType)
    (hr : i.result.isSome = i.opcode.hasResult) (hlen : i.operands.length ≤ 8) : i.Formed := by
  refine ⟨ht, hr, ?_⟩
  have hle := length_resultWords_le (i := i)
  unfold wordCount
  omega

theorem formed_of_yields {op : Opcode} {t id : Ref} {ops : List UInt32} (hop : op.yields)
    (hlen : ops.length ≤ 8) : (⟨op, some t, some id, ops⟩ : Inst).Formed :=
  formed_of_length (Opcode.hasType_of_yields hop).symm (Opcode.hasResult_of_yields hop).symm hlen

end Inst

theorem TypeDecl.formed_inst (decl : TypeDecl) (id : Ref) : (decl.inst id).Formed := by
  cases decl <;> exact Inst.formed_of_length rfl rfl (by simp [inst, operands])

/-- The entry point has five words besides its interface. -/
theorem EntryPoint.formed_inst {e : EntryPoint} (hname : e.name = "main")
    (hlen : e.interface.length ≤ 65530) : e.inst.Formed := by
  have hmain : (Literal.ofString "main").length = 2 := by decide +kernel
  refine ⟨rfl, rfl, ?_⟩
  show 1 + 0 + ([e.model, e.function.word] ++ Literal.ofString e.name ++
    e.interface.map Ref.word).length < 2 ^ 16
  rw [hname, List.length_append, List.length_append, hmain, List.length_map]
  show 1 + 0 + (2 + 2 + e.interface.length) < 2 ^ 16
  omega

namespace Builder

variable {b : Builder}

theorem formed_imports : ∀ i ∈ b.imports, i.Formed := by
  have hname : (Literal.ofString extSetName).length = 4 := by decide +kernel
  intro i hi
  obtain ⟨id, -, rfl⟩ := List.mem_map.1 hi
  exact Inst.formed_of_length rfl rfl (by rw [hname]; decide)

theorem formed_globals : ∀ i ∈ b.globals, i.Formed := by
  intro i hi
  obtain ⟨⟨d, n⟩, -, hd⟩ := List.mem_filterMap.1 hi
  cases d with
  | plain => cases hd
  | value t => cases hd
  | type decl =>
    obtain rfl := Option.some.inj hd
    exact decl.formed_inst _
  | constant t bits =>
    obtain rfl := Option.some.inj hd
    exact Inst.formed_of_length rfl rfl (by simp)
  | var t storage =>
    obtain rfl := Option.some.inj hd
    exact Inst.formed_of_length rfl rfl (by simp)

/-- The instructions of a module are formed if those of the body and the entry points are. -/
theorem formed_insts (hentries : ∀ e ∈ b.entryPoints, e.inst.Formed)
    (hbody : ∀ i ∈ b.body.toList, i.Formed) : ∀ i ∈ b.insts, i.Formed := by
  intro i hi
  unfold insts at hi
  simp only [List.mem_append, List.mem_map] at hi
  rcases hi with (((((((⟨n, -, rfl⟩ | hi) | hi) | ⟨e, he, rfl⟩) | ⟨e, -, rfl⟩) | hi) | hi) | hi)
  · exact Inst.formed_of_length rfl rfl (by simp)
  · exact formed_imports i hi
  · split at hi
    · obtain rfl := List.mem_singleton.1 hi
      exact Inst.formed_of_length rfl rfl (by simp)
    · cases hi
  · exact hentries e (Array.mem_toList_iff.1 he)
  · exact Inst.formed_of_length rfl rfl (by simp [ExecutionMode.inst])
  · obtain ⟨d, -, rfl⟩ := List.mem_map.1 hi
    exact Inst.formed_of_length rfl rfl (by simp [Decoration.inst])
  · exact formed_globals i hi
  · exact hbody i hi

end Builder

end TextureLift
