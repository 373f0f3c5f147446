import Mathlib.Data.List.Forall2
import Mathlib.Data.List.TakeWhile
import Mathlib.Data.Nat.Digits.Lemmas
import TextureLift.Job.Basic
import TextureLift.Proofs.Action

/-!
# The grammar of instruction words

`Job.Spells` says which texts are words, and of which value, without reading them: white space at both
ends, a base mark, underscores, a sign and digits whose value is the sum of their powers of sixteen.
Reading accepts these texts and no others:

    word? s = some v ↔ Spells s.toList v

A program is made if all its words can be read. Otherwise the first that cannot is reported.
-/

namespace TextureLift

/-! ## White space -/

namespace Text

/-- The characters with the property White_Space, by their numbers. -/
def whiteSpace : List Nat :=
  [0x9, 0xa, 0xb, 0xc, 0xd, 0x20, 0x85, 0xa0, 0x1680, 0x2000, 0x2001, 0x2002, 0x2003, 0x2004, 0x2005,
    0x2006, 0x2007, 0x2008, 0x2009, 0x200a, 0x2028, 0x2029, 0x202f, 0x205f, 0x3000]

theorem isBlank_iff {c : Char} : isBlank c = true ↔ c.toNat ∈ whiteSpace := by
  -- with the ranges written out, both sides are one disjunction
  have hcontrols (n : Nat) : 0x9 ≤ n ∧ n ≤ 0xd ↔
      n = 0x9 ∨ n = 0xa ∨ n = 0xb ∨ n = 0xc ∨ n = 0xd := by omega
  have hspaces (n : Nat) : 0x2000 ≤ n ∧ n ≤ 0x200a ↔ n = 0x2000 ∨ n = 0x2001 ∨ n = 0x2002 ∨
      n = 0x2003 ∨ n = 0x2004 ∨ n = 0x2005 ∨ n = 0x2006 ∨ n = 0x2007 ∨ n = 0x2008 ∨ n = 0x2009 ∨
      n = 0x200a := by omega
  simp only [isBlank, whiteSpace, Bool.or_eq_true, Bool.and_eq_true, decide_eq_true_eq, beq_iff_eq,
    List.mem_cons, List.not_mem_nil, or_false, hcontrols, hspaces, or_assoc]

/-- The text is `core` with white space before and after it, as much as there is. -/
structure Trims (cs core : List Char) : Prop where
  around : ∃ before after, cs = before ++ core ++ after ∧ (∀ c ∈ before, c.toNat ∈ whiteSpace) ∧
    ∀ c ∈ after, c.toNat ∈ whiteSpace
  first : ∀ c ∈ core.head?, c.toNat ∉ whiteSpace
  last : ∀ c ∈ core.getLast?, c.toNat ∉ whiteSpace

theorem dropWhile_isBlank {cs : List Char} (h : ∀ c ∈ cs.head?, c.toNat ∉ whiteSpace) :
    cs.dropWhile isBlank = cs := by
  cases cs with
  | nil => rfl
  | cons c cs => exact List.dropWhile_cons_of_neg fun hc => h c rfl (isBlank_iff.1 hc)

theorem head?_dropWhile_isBlank (cs : List Char) :
    ∀ c ∈ (cs.dropWhile isBlank).head?, c.toNat ∉ whiteSpace := by
  intro c hc hblank
  have hnot := List.head?_dropWhile_not isBlank cs
  rw [Option.mem_def.1 hc] at hnot
  exact absurd (isBlank_iff.2 hblank) (Bool.eq_false_iff.1 hnot)

theorem takeWhile_isBlank (cs : List Char) : ∀ c ∈ cs.takeWhile isBlank, c.toNat ∈ whiteSpace :=
  fun _ hc => isBlank_iff.1 (List.mem_takeWhile_imp hc)

theorem trims_trim (cs : List Char) : Trims cs (trim cs) := by
  have hfront := List.takeWhile_append_dropWhile (p := isBlank) (l := cs)
  generalize hrest : cs.dropWhile isBlank = rest at hfront
  have hback := List.takeWhile_append_dropWhile (p := isBlank) (l := rest.reverse)
  have hsplit : rest = trim cs ++ (rest.reverse.takeWhile isBlank).reverse := by
    unfold trim
    rw [hrest, ← List.reverse_append, hback, List.reverse_reverse]
  refine ⟨⟨cs.takeWhile isBlank, (rest.reverse.takeWhile isBlank).reverse, ?_, takeWhile_isBlank cs,
    fun c hc => takeWhile_isBlank _ c (List.mem_reverse.1 hc)⟩, fun c hc => ?_, fun c hc => ?_⟩
  · rw [List.append_assoc, ← hsplit, hfront]
  · refine head?_dropWhile_isBlank cs c ?_
    rw [hrest, hsplit, List.head?_append, Option.mem_def.1 hc]
    rfl
  · refine head?_dropWhile_isBlank rest.reverse c ?_
    unfold trim at hc
    rwa [hrest, List.getLast?_reverse] at hc

/-- White space at both ends is left out, and nothing else. -/
theorem trim_eq_iff {cs core : List Char} : trim cs = core ↔ Trims cs core := by
  constructor
  · rintro rfl
    exact trims_trim cs
  · rintro ⟨⟨before, after, rfl, hbefore, hafter⟩, hfirst, hlast⟩
    have hblank {l : List Char} (h : ∀ c ∈ l, c.toNat ∈ whiteSpace) : ∀ c ∈ l, isBlank c = true :=
      fun c hc => isBlank_iff.2 (h c hc)
    have hafter' : ∀ c ∈ after.reverse, c.toNat ∈ whiteSpace := fun c hc => hafter c (List.mem_reverse.1 hc)
    unfold trim
    rw [List.append_assoc, List.dropWhile_append_of_pos (hblank hbefore)]
    cases core with
    | nil =>
      rw [List.nil_append, List.dropWhile_eq_nil_iff.2 (hblank hafter)]
      rfl
    | cons c cs =>
      have hhead : ∀ c' ∈ (c :: cs ++ after).head?, c'.toNat ∉ whiteSpace := hfirst
      rw [dropWhile_isBlank hhead, List.reverse_append, List.dropWhile_append_of_pos (hblank hafter'),
        dropWhile_isBlank, List.reverse_reverse]
      rwa [List.head?_reverse]

end Text

/-! ## Numerals -/

namespace Job

/-- The character stands for the digit, in either case. -/
def HexDigit (c : Char) (n : Nat) : Prop :=
  "0123456789abcdef".toList[n]? = some c ∨ "0123456789ABCDEF".toList[n]? = some c

/-- A plus sign or none, and one or more digits of the number, the highest first. -/
def Numeral (cs : List Char) (n : Nat) : Prop :=
  ∃ sign digits values, cs = sign ++ digits ∧ (sign = [] ∨ sign = ['+']) ∧ digits ≠ [] ∧
    List.Forall₂ HexDigit digits values ∧ n = Nat.ofDigits 16 values.reverse

instance (c : Char) (n : Nat) : Decidable (HexDigit c n) :=
  inferInstanceAs (Decidable (_ ∨ _))

/-- Digits are ASCII characters and below the base. -/
theorem bounds_of_digit? {c : Char} {n : Nat} (h : Text.digit? 16 c = some n) :
    c.toNat < 128 ∧ n < 16 := by
  have hle (a b : Char) : a ≤ b ↔ a.toNat ≤ b.toNat := UInt32.le_iff_toNat_le
  unfold Text.digit? at h
  simp only [hle] at h
  grind

theorem digit?_eq_some_iff {c : Char} {n : Nat} : Text.digit? 16 c = some n ↔ HexDigit c n := by
  have htable : ∀ m < 128, ∀ n < 16, Text.digit? 16 (Char.ofNat m) = some n →
      HexDigit (Char.ofNat m) n := by decide +kernel
  constructor
  · intro h
    obtain ⟨hc, hn⟩ := bounds_of_digit? h
    rw [← Char.ofNat_toNat c] at h ⊢
    exact htable _ hc n hn h
  · rintro (h | h)
    all_goals
      have hn : n < 16 := (List.getElem?_eq_some_iff.1 h).1
      interval_cases n <;> cases h <;> rfl

open Text in
/-- The digits that are read, after a number that was read before them. -/
theorem foldlM_digits {base : Nat} {digits : List Char} {start n : Nat} :
    digits.foldlM (fun n c => (digit? base c).map (n * base + ·)) start = some n ↔
      ∃ values, List.Forall₂ (fun c v => digit? base c = some v) digits values ∧
        n = start * base ^ digits.length + Nat.ofDigits base values.reverse := by
  induction digits generalizing start with
  | nil => simp [eq_comm]
  | cons c digits ih =>
    have hvalue (v : Nat) {values : List Nat}
        (h : List.Forall₂ (fun c v => digit? base c = some v) digits values) :
        (start * base + v) * base ^ digits.length + Nat.ofDigits base values.reverse =
          start * base ^ (c :: digits).length + Nat.ofDigits base (v :: values).reverse := by
      rw [List.reverse_cons, Nat.ofDigits_append, Nat.ofDigits_singleton, List.length_reverse,
        ← h.length_eq, List.length_cons, Nat.pow_succ]
      ring
    rw [List.foldlM_cons, Option.bind_eq_bind, Option.bind_eq_some_iff]
    constructor
    · rintro ⟨next, hnext, h⟩
      obtain ⟨v, hv, rfl⟩ := Option.map_eq_some_iff.1 hnext
      obtain ⟨values, hvalues, rfl⟩ := ih.1 h
      exact ⟨v :: values, .cons hv hvalues, hvalue v hvalues⟩
    · rintro ⟨values, hvalues, rfl⟩
      cases hvalues with
      | @cons _ v _ values hv hvalues =>
        refine ⟨start * base + v, ?_, ih.2 ⟨values, hvalues, (hvalue v hvalues).symm⟩⟩
        rw [hv]
        rfl

theorem number?_eq_some_iff {cs : List Char} {n : Nat} : Text.number? 16 cs = some n ↔
    cs ≠ [] ∧ ∃ values, List.Forall₂ HexDigit cs values ∧ n = Nat.ofDigits 16 values.reverse := by
  unfold Text.number?
  cases cs with
  | nil => simp
  | cons c cs =>
    rw [List.isEmpty_cons, if_neg (by decide), foldlM_digits]
    simp only [digit?_eq_some_iff, Nat.zero_mul, Nat.zero_add, ne_eq, reduceCtorEq, not_false_eq_true,
      true_and]

theorem not_hexDigit_plus (n : Nat) : ¬ HexDigit '+' n := by
  rw [← digit?_eq_some_iff]
  exact nofun

theorem exists_sign (cs : List Char) :
    ∃ sign, (sign = [] ∨ sign = ['+']) ∧ cs = sign ++ dropPlus cs := by
  unfold dropPlus
  split
  · exact ⟨['+'], .inr rfl, rfl⟩
  · exact ⟨[], .inl rfl, rfl⟩

/-- A numeral is read after its sign. -/
theorem number?_dropPlus_eq_some_iff {cs : List Char} {n : Nat} :
    Text.number? 16 (dropPlus cs) = some n ↔ Numeral cs n := by
  rw [number?_eq_some_iff]
  constructor
  · rintro ⟨hne, values, hvalues, hn⟩
    obtain ⟨sign, hsign, hcs⟩ := exists_sign cs
    exact ⟨sign, dropPlus cs, values, hcs, hsign, hne, hvalues, hn⟩
  · rintro ⟨sign, digits, values, rfl, hsign, hne, hvalues, hn⟩
    have hdrop : dropPlus (sign ++ digits) = digits := by
      rcases hsign with rfl | rfl
      · cases hvalues with
        | nil => exact absurd rfl hne
        | @cons c v cs values hc _ =>
          unfold dropPlus
          split
          · rename_i heq
            obtain ⟨rfl, -⟩ := List.cons.inj heq
            exact absurd hc (not_hexDigit_plus v)
          · rfl
      · rfl
    rw [hdrop]
    exact ⟨hne, values, hvalues, hn⟩

/-! ## Words -/

/-- The base mark is left out, if there is one. -/
inductive Unmarks : List Char → List Char → Prop
  | lower (cs : List Char) : Unmarks ('0' :: 'x' :: cs) cs
  | upper (cs : List Char) : Unmarks ('0' :: 'X' :: cs) cs
  | none (cs : List Char) (hlower : ¬ ['0', 'x'] <+: cs) (hupper : ¬ ['0', 'X'] <+: cs) : Unmarks cs cs

/-- The text is a word: without white space at its ends, a base mark and underscores it is a numeral. -/
def Spells (cs : List Char) (v : UInt64) : Prop :=
  ∃ core body, Text.Trims cs core ∧ Unmarks core body ∧ Numeral (body.filter (· != '_')) v.toNat

theorem dropBaseMark_eq_iff {cs body : List Char} : dropBaseMark cs = body ↔ Unmarks cs body := by
  constructor
  · rintro rfl
    unfold dropBaseMark
    split
    · exact .lower _
    · exact .upper _
    · rename_i hlower hupper
      refine .none cs ?_ ?_
      · rintro ⟨rest, rfl⟩
        exact hlower rest rfl
      · rintro ⟨rest, rfl⟩
        exact hupper rest rfl
  · rintro (_ | _ | ⟨_, hlower, hupper⟩)
    · rfl
    · rfl
    · unfold dropBaseMark
      split
      · exact absurd ⟨_, rfl⟩ hlower
      · exact absurd ⟨_, rfl⟩ hupper
      · rfl

/-- Reading accepts the texts that spell a word, and no others. -/
theorem word?_eq_some_iff {s : String} {v : UInt64} : word? s = some v ↔ Spells s.toList v := by
  have hword (n : Nat) : (if n < UInt64.size then some (UInt64.ofNat n) else none) = some v ↔
      n = v.toNat := by
    constructor
    · intro h
      split at h
      · rename_i hn
        rw [← Option.some.inj h, UInt64.toNat_ofNat_of_lt' hn]
      · cases h
    · rintro rfl
      rw [if_pos v.toNat_lt, UInt64.ofNat_toNat]
  have hspells : Spells s.toList v ↔
      Numeral ((dropBaseMark (Text.trim s.toList)).filter (· != '_')) v.toNat := by
    constructor
    · rintro ⟨core, body, hcore, hbody, h⟩
      rwa [Text.trim_eq_iff.2 hcore, dropBaseMark_eq_iff.2 hbody]
    · exact fun h => ⟨_, _, Text.trim_eq_iff.1 rfl, dropBaseMark_eq_iff.1 rfl, h⟩
  rw [hspells, ← number?_dropPlus_eq_some_iff]
  unfold word?
  rw [Option.bind_eq_bind, Option.bind_eq_some_iff]
  constructor
  · rintro ⟨n, hn, h⟩
    rwa [(hword n).1 h] at hn
  · exact fun h => ⟨v.toNat, h, (hword _).2 rfl⟩

/-! ## Spellings of a word -/

/-- The characters of words, other than white space and base marks. -/
def wordCharacters : List Char := "_+0123456789abcdefABCDEF".toList

/-- What holds of the characters of a list is decided for these alone, not for all characters. -/
theorem forall_mem_of_all {p : Char → Prop} [DecidablePred p] {cs : List Char}
    (h : cs.all (fun c => decide (p c)) = true) : ∀ c ∈ cs, p c :=
  fun c hc => of_decide_eq_true (List.all_eq_true.1 h c hc)

theorem HexDigit.mem_wordCharacters {c : Char} {n : Nat} (h : HexDigit c n) : c ∈ wordCharacters := by
  have hlower : ∀ c ∈ "0123456789abcdef".toList, c ∈ wordCharacters := forall_mem_of_all (by decide)
  have hupper : ∀ c ∈ "0123456789ABCDEF".toList, c ∈ wordCharacters := forall_mem_of_all (by decide)
  rcases h with h | h
  · exact hlower c (List.mem_of_getElem? h)
  · exact hupper c (List.mem_of_getElem? h)

theorem Numeral.mem_wordCharacters {cs : List Char} {n : Nat} (h : Numeral cs n) :
    ∀ c ∈ cs, c ∈ wordCharacters := by
  obtain ⟨sign, digits, values, rfl, hsign, -, hvalues, -⟩ := h
  refine List.forall_mem_append.2 ⟨?_, ?_⟩
  · rcases hsign with rfl | rfl <;> exact forall_mem_of_all (by decide)
  · exact forall_of_forall₂ (hvalues.flip.imp fun _ _ h => HexDigit.mem_wordCharacters h)

/-- White space around a word, a base mark and underscores make no difference. -/
theorem spells_of_numeral {before mark body after : List Char} {v : UInt64}
    (hbefore : ∀ c ∈ before, c.toNat ∈ Text.whiteSpace) (hafter : ∀ c ∈ after, c.toNat ∈ Text.whiteSpace)
    (hmark : mark = [] ∨ mark = ['0', 'x'] ∨ mark = ['0', 'X'])
    (h : Numeral (body.filter (· != '_')) v.toNat) : Spells (before ++ mark ++ body ++ after) v := by
  have hbody : ∀ c ∈ body, c ∈ wordCharacters := fun c hc => by
    by_cases hunderscore : c = '_'
    · rw [hunderscore]
      decide
    · exact h.mem_wordCharacters c (List.mem_filter.2 ⟨hc, bne_iff_ne.2 hunderscore⟩)
  have hplain : ∀ c ∈ wordCharacters, c.toNat ∉ Text.whiteSpace ∧ c ≠ 'x' ∧ c ≠ 'X' :=
    forall_mem_of_all (by decide)
  have hcore : ∀ c ∈ mark ++ body, c.toNat ∉ Text.whiteSpace := by
    refine List.forall_mem_append.2 ⟨?_, fun c hc => (hplain c (hbody c hc)).1⟩
    rcases hmark with rfl | rfl | rfl <;> exact forall_mem_of_all (by decide)
  refine ⟨mark ++ body, body, ⟨⟨before, after, by rw [List.append_assoc before], hbefore, hafter⟩,
    fun c hc => hcore c (List.mem_of_mem_head? hc), fun c hc => hcore c (List.mem_of_mem_getLast? hc)⟩, ?_, h⟩
  rcases hmark with rfl | rfl | rfl
  · refine .none body (fun hx => ?_) fun hx => ?_
    · exact (hplain 'x' (hbody 'x' (hx.subset (by simp)))).2.1 rfl
    · exact (hplain 'X' (hbody 'X' (hx.subset (by simp)))).2.2 rfl
  · exact .lower body
  · exact .upper body

/-! ## Programs -/

/-- Reads the word at a position. -/
def readAt (entry : String × Nat) : Except BadWord UInt64 :=
  (word? entry.1).elim (.error ⟨entry.2, entry.1⟩) .ok

theorem program_eq (j : Job) : j.program =
    (j.instructions.zipIdx.mapM readAt).map fun words => ⟨words, j.samplers, j.queries⟩ := by
  have hread (f : String × Nat → Except BadWord UInt64) (hf : ∀ x, f x = readAt x) :
      (do return ⟨← j.instructions.zipIdx.mapM f, j.samplers, j.queries⟩ : Except BadWord Program) =
        (j.instructions.zipIdx.mapM readAt).map fun words => ⟨words, j.samplers, j.queries⟩ := by
    rw [funext hf]
    cases j.instructions.zipIdx.mapM readAt <;> rfl
  refine hread _ fun x => ?_
  unfold readAt
  dsimp only
  cases word? x.1 <;> rfl

variable {texts before after : List String} {text : String} {word : UInt64} {words : List UInt64}

theorem readAt_of_some (h : word? text = some word) (position : Nat) :
    readAt (text, position) = .ok word := by
  unfold readAt
  rw [h]
  rfl

theorem readAt_of_none (h : word? text = none) (position : Nat) :
    readAt (text, position) = .error ⟨position, text⟩ := by
  unfold readAt
  rw [h]
  rfl

theorem readAll_of_forall₂ (h : List.Forall₂ (fun text word => word? text = some word) texts words)
    (position : Nat) : (texts.zipIdx position).mapM readAt = .ok words := by
  induction h generalizing position with
  | nil => rfl
  | @cons text word texts words hword _ ih =>
    rw [List.zipIdx_cons, List.mapM_cons, readAt_of_some hword, ih]
    rfl

theorem readAll_of_bad (hbefore : ∀ t ∈ before, (word? t).isSome) (hbad : word? text = none)
    (position : Nat) : ((before ++ text :: after).zipIdx position).mapM readAt =
      .error ⟨position + before.length, text⟩ := by
  induction before generalizing position with
  | nil =>
    rw [List.nil_append, List.zipIdx_cons, List.mapM_cons, readAt_of_none hbad]
    rfl
  | cons t before ih =>
    obtain ⟨ht, hbefore⟩ := List.forall_mem_cons.1 hbefore
    obtain ⟨word, hword⟩ := Option.isSome_iff_exists.1 ht
    rw [List.cons_append, List.zipIdx_cons, List.mapM_cons, readAt_of_some hword, ih hbefore,
      List.length_cons, Nat.add_assoc, Nat.add_comm 1]
    rfl

/-- All texts are words, or there is a first that is not. -/
theorem forall_or_first_bad (texts : List String) :
    (∃ words, List.Forall₂ (fun text word => word? text = some word) texts words) ∨
    ∃ before text after, texts = before ++ text :: after ∧ (∀ t ∈ before, (word? t).isSome) ∧
      word? text = none := by
  induction texts with
  | nil => exact .inl ⟨[], .nil⟩
  | cons t texts ih =>
    cases ht : word? t with
    | none => exact .inr ⟨[], t, texts, rfl, nofun, ht⟩
    | some word =>
      rcases ih with ⟨words, hwords⟩ | ⟨before, text, after, rfl, hbefore, hbad⟩
      · exact .inl ⟨word :: words, .cons ht hwords⟩
      · exact .inr ⟨t :: before, text, after, rfl,
          List.forall_mem_cons.2 ⟨Option.isSome_of_eq_some ht, hbefore⟩, hbad⟩

variable {j : Job} {p : Program} {e : BadWord}

theorem program_eq_ok_iff : j.program = .ok p ↔
    List.Forall₂ (fun text word => word? text = some word) j.instructions p.instructions ∧
      p.samplers = j.samplers ∧ p.queries = j.queries := by
  rw [program_eq]
  constructor
  · intro h
    rcases forall_or_first_bad j.instructions with ⟨words, hwords⟩ | ⟨before, text, after, hsplit, hbefore, hbad⟩
    · rw [readAll_of_forall₂ hwords] at h
      obtain rfl := Except.ok.inj h
      exact ⟨hwords, rfl, rfl⟩
    · rw [hsplit, readAll_of_bad hbefore hbad] at h
      cases h
  · rintro ⟨hwords, hsamplers, hqueries⟩
    rw [readAll_of_forall₂ hwords, ← hsamplers, ← hqueries]
    rfl

theorem program_eq_error_iff : j.program = .error e ↔
    ∃ before after, j.instructions = before ++ e.text :: after ∧ e.position = before.length ∧
      (∀ t ∈ before, (word? t).isSome) ∧ word? e.text = none := by
  rw [program_eq]
  constructor
  · intro h
    rcases forall_or_first_bad j.instructions with ⟨words, hwords⟩ | ⟨before, text, after, hsplit, hbefore, hbad⟩
    · rw [readAll_of_forall₂ hwords] at h
      cases h
    · rw [hsplit, readAll_of_bad hbefore hbad] at h
      obtain rfl := Except.error.inj h
      exact ⟨before, after, hsplit, Nat.zero_add _, hbefore, hbad⟩
  · rintro ⟨before, after, hsplit, hposition, hbefore, hbad⟩
    rw [hsplit, readAll_of_bad hbefore hbad, Nat.zero_add, ← hposition]
    rfl

theorem exists_program_iff : (∃ p, j.program = .ok p) ↔ ∀ t ∈ j.instructions, (word? t).isSome := by
  constructor
  · rintro ⟨p, hp⟩
    have hwords := (program_eq_ok_iff.1 hp).1
    exact forall_of_forall₂ (hwords.flip.imp fun _ _ h => Option.isSome_of_eq_some h)
  · intro h
    rcases forall_or_first_bad j.instructions with ⟨words, hwords⟩ | ⟨before, text, after, hsplit, -, hbad⟩
    · exact ⟨⟨words, j.samplers, j.queries⟩, program_eq_ok_iff.2 ⟨hwords, rfl, rfl⟩⟩
    · have htext := h text (by rw [hsplit]; exact List.mem_append_right _ List.mem_cons_self)
      rw [hbad] at htext
      cases htext

/-- The words of a job. A text is read as a word if and only if it spells that word; so are all texts
with white space around a numeral, a base mark before it and underscores in it. A job has a program if
and only if all its texts are words, and then the program has these words in order, and the samplers
and queries of the job. Otherwise the first text that is not a word is reported with its position. -/
theorem words_read :
    (∀ (s : String) (v : UInt64), word? s = some v ↔ Spells s.toList v) ∧
    (∀ (v : UInt64) (before mark body after : List Char), (∀ c ∈ before, c.toNat ∈ Text.whiteSpace) →
      (∀ c ∈ after, c.toNat ∈ Text.whiteSpace) →
      (mark = [] ∨ mark = ['0', 'x'] ∨ mark = ['0', 'X']) →
      Numeral (body.filter (· != '_')) v.toNat →
      word? (String.ofList (before ++ mark ++ body ++ after)) = some v) ∧
    ∀ j : Job, ((∃ p, j.program = .ok p) ↔ ∀ t ∈ j.instructions, (word? t).isSome) ∧
      (∀ p, j.program = .ok p ↔
        List.Forall₂ (fun text word => word? text = some word) j.instructions p.instructions ∧
          p.samplers = j.samplers ∧ p.queries = j.queries) ∧
      ∀ e, j.program = .error e ↔
        ∃ before after, j.instructions = before ++ e.text :: after ∧ e.position = before.length ∧
          (∀ t ∈ before, (word? t).isSome) ∧ word? e.text = none := by
  refine ⟨fun s v => word?_eq_some_iff, fun v before mark body after hbefore hafter hmark h => ?_,
    fun j => ⟨exists_program_iff, fun p => program_eq_ok_iff, fun e => program_eq_error_iff⟩⟩
  rw [word?_eq_some_iff, String.toList_ofList]
  exact spells_of_numeral hbefore hafter hmark h

/-- Everything that a word may have around its digits, and a job whose second text has no digits. -/
theorem words_read_padded :
    word? (String.ofList ("\u00a0 ".toList ++ ['0', 'X'] ++ "__+00fF_".toList ++ "\n".toList)) =
      some 255 ∧
    (⟨none, ["1", "0x_", "2"], [], []⟩ : Job).program = .error ⟨1, "0x_"⟩ := by
  have hnumeral : Numeral ("__+00fF_".toList.filter (· != '_')) (255 : UInt64).toNat := by
    refine ⟨['+'], "00fF".toList, [0, 0, 15, 15], by decide, .inr rfl, by decide, ?_, by decide⟩
    exact .cons (by decide) (.cons (by decide) (.cons (by decide) (.cons (by decide) .nil)))
  refine ⟨words_read.2.1 255 _ _ _ _ (forall_mem_of_all (by decide)) (forall_mem_of_all (by decide))
    (.inr (.inr rfl)) hnumeral, ?_⟩
  exact ((words_read.2.2 _).2.2 _).2 ⟨["1"], ["2"], rfl, rfl, by decide +kernel, by decide +kernel⟩

end Job

end TextureLift
