import Mathlib.Algebra.Group.Nat.Defs
import TextureLift.Module.Builder

/-!
# Reading literal strings

The words of a literal string hold its UTF-8 bytes and one to four zero bytes. No byte of a character
other than NUL is zero, so the first word with a zero byte is the last word of the string, and what
follows a string is found without its length:

    '\x00' ∉ s.toList → read? (ofString s ++ rest) = some (s, rest)

An entry point has its name between two words and the ids of its interface, so its operands determine
all of it.
-/

namespace TextureLift

namespace Literal

/-- The bytes of a word, the low bits first. -/
def bytes (w : UInt32) : List UInt8 :=
  [w.toUInt8, (w >>> 8).toUInt8, (w >>> 16).toUInt8, (w >>> 24).toUInt8]

/-- The words up to the first that holds a zero byte, that word included, and the words after it. -/
def split? : List UInt32 → Option (List UInt32 × List UInt32)
  | [] => none
  | w :: words =>
    if 0 ∈ bytes w then some ([w], words)
    else (split? words).map fun parts => (w :: parts.1, parts.2)

/-- The string at the start of some words, and the words after it. -/
def read? (words : List UInt32) : Option (String × List UInt32) :=
  (split? words).bind fun parts =>
    (String.fromUTF8? ((parts.1.flatMap bytes).takeWhile (· ≠ 0)).toByteArray).map fun s => (s, parts.2)

/-! ## Words and bytes -/

theorem toNat_word (a b c d : UInt8) : (word a b c d).toNat =
    a.toNat + b.toNat * 0x100 + c.toNat * 0x10000 + d.toNat * 0x1000000 := by
  have ha := a.toNat_lt
  have hb := b.toNat_lt
  have hc := c.toNat_lt
  have hd := d.toNat_lt
  have hshift (x : UInt8) (n : UInt32) (hx : x.toNat * 2 ^ n.toNat < 2 ^ 32) (hn : n.toNat < 32) :
      (x.toUInt32 <<< n).toNat = x.toNat <<< n.toNat := by
    rw [UInt32.toNat_shiftLeft, UInt8.toNat_toUInt32, Nat.mod_eq_of_lt hn, Nat.mod_eq_of_lt]
    rwa [Nat.shiftLeft_eq]
  have hor (x y n : Nat) (hx : x < 2 ^ n) : x ||| y <<< n = x + y * 2 ^ n := by
    rw [Nat.or_comm, ← Nat.shiftLeft_add_eq_or_of_lt hx, Nat.shiftLeft_eq, Nat.add_comm]
  unfold word
  rw [UInt32.toNat_or, UInt32.toNat_or, UInt32.toNat_or,
    hshift b 8 (show b.toNat * 2 ^ 8 < 2 ^ 32 by omega) (by decide),
    hshift c 16 (show c.toNat * 2 ^ 16 < 2 ^ 32 by omega) (by decide),
    hshift d 24 (show d.toNat * 2 ^ 24 < 2 ^ 32 by omega) (by decide), UInt8.toNat_toUInt32]
  show ((a.toNat ||| b.toNat <<< 8) ||| c.toNat <<< 16) ||| d.toNat <<< 24 = _
  rw [hor _ _ 8 (by omega), hor _ _ 16 (by omega), hor _ _ 24 (by omega)]
  rfl

/-- The bytes of a word are those it was made of. -/
theorem bytes_word (a b c d : UInt8) : bytes (word a b c d) = [a, b, c, d] := by
  have ha := a.toNat_lt
  have hb := b.toNat_lt
  have hc := c.toNat_lt
  have hd := d.toNat_lt
  have hword := toNat_word a b c d
  have hlow : (word a b c d).toUInt8 = a := by
    rw [← UInt8.toNat_inj, UInt32.toNat_toUInt8]
    omega
  have hbyte (n : UInt32) (k : Nat) (x : UInt8) (hk : n.toNat % 32 = k)
      (h : (word a b c d).toNat / 2 ^ k % 2 ^ 8 = x.toNat) : (word a b c d >>> n).toUInt8 = x := by
    rw [← UInt8.toNat_inj, UInt32.toNat_toUInt8, UInt32.toNat_shiftRight, hk,
      Nat.shiftRight_eq_div_pow]
    exact h
  unfold bytes
  rw [hlow, hbyte 8 8 b rfl (by omega), hbyte 16 16 c rfl (by omega), hbyte 24 24 d rfl (by omega)]

/-! ## Words of bytes -/

variable {bs : List UInt8}

theorem length_ofBytes (bs : List UInt8) : (ofBytes bs).length = bs.length / 4 + 1 := by
  fun_induction ofBytes bs with
  | case1 a b c d bs ih =>
    rw [List.length_cons, ih]
    simp only [List.length_cons]
    omega
  | case2 | case3 | case4 | case5 => simp

/-- The bytes of the words are the given ones and one to four zeros. -/
theorem flatMap_bytes_ofBytes (bs : List UInt8) :
    ∃ n, 1 ≤ n ∧ n ≤ 4 ∧ (ofBytes bs).flatMap bytes = bs ++ List.replicate n 0 := by
  fun_induction ofBytes bs with
  | case1 a b c d bs ih =>
    obtain ⟨n, hn, hn', h⟩ := ih
    refine ⟨n, hn, hn', ?_⟩
    rw [List.flatMap_cons, bytes_word, h]
    rfl
  | case2 a b c => exact ⟨1, by decide, by decide, by simp [bytes_word]⟩
  | case3 a b => exact ⟨2, by decide, by decide, by simp [bytes_word, List.replicate]⟩
  | case4 a => exact ⟨3, by decide, by decide, by simp [bytes_word, List.replicate]⟩
  | case5 => exact ⟨4, by decide, by decide, rfl⟩

/-- Words of bytes that are not zero end at the first word that holds a zero byte. -/
theorem split?_ofBytes (h : 0 ∉ bs) (rest : List UInt32) :
    split? (ofBytes bs ++ rest) = some (ofBytes bs, rest) := by
  fun_induction ofBytes bs with
  | case1 a b c d bs ih =>
    have hfour : 0 ∉ [a, b, c, d] := fun h' => h (List.mem_append_left bs h')
    have hbs : 0 ∉ bs := fun h' => h (List.mem_append_right [a, b, c, d] h')
    rw [List.cons_append, split?, bytes_word, if_neg hfour, ih hbs]
    rfl
  | case2 | case3 | case4 =>
    rw [List.cons_append, split?, bytes_word, if_pos (by simp)]
    rfl
  | case5 => rfl

theorem takeWhile_ne_zero (h : 0 ∉ bs) {n : Nat} (hn : 1 ≤ n) :
    (bs ++ List.replicate n 0).takeWhile (· ≠ 0) = bs := by
  obtain ⟨n, rfl⟩ := Nat.exists_eq_add_of_le' hn
  rw [List.takeWhile_append_of_pos fun x hx => by simpa using ne_of_mem_of_not_mem hx h]
  simp [List.replicate_succ]

/-! ## Bytes of strings -/

/-- The bytes from a position on are listed after those before it. -/
theorem toList_loop (bytes : ByteArray) (i : Nat) (past : List UInt8) :
    ByteArray.toList.loop bytes i past = past.reverse ++ bytes.data.toList.drop i := by
  fun_induction ByteArray.toList.loop bytes i past with
  | case1 i past hi ih =>
    have hlen : i < bytes.data.toList.length := by simpa using hi
    rw [ih, List.drop_eq_getElem_cons hlen]
    simp [ByteArray.get!, hi]
  | case2 i past hi =>
    rw [List.drop_eq_nil_of_le (by simpa using Nat.le_of_not_lt hi), List.append_nil]

theorem toList_toUTF8 (s : String) : s.toUTF8.toList = s.toUTF8.data.toList :=
  toList_loop s.toUTF8 0 []

/-- Bytes of characters other than NUL are not zero. -/
theorem zero_notMem_utf8EncodeChar {c : Char} (hc : c ≠ '\x00') : 0 ∉ String.utf8EncodeChar c := by
  have hpos : 0 < c.val.toNat := Nat.pos_of_ne_zero fun h => hc (Char.ext (UInt32.toNat_inj.1 h))
  have hne {n : Nat} (hn : 0 < n) (hn' : n < 256) : 0 ≠ UInt8.ofNat n := by
    intro h
    have h := congrArg UInt8.toNat h
    rw [UInt8.toNat_ofNat_of_lt' hn'] at h
    exact absurd h.symm (Nat.ne_of_gt hn)
  unfold String.utf8EncodeChar
  dsimp only
  split
  · simpa using hne hpos (by omega)
  · split
    · simp only [List.mem_cons, List.not_mem_nil, or_false, not_or]
      exact ⟨hne (by omega) (by omega), hne (by omega) (by omega)⟩
    · split
      · simp only [List.mem_cons, List.not_mem_nil, or_false, not_or]
        exact ⟨hne (by omega) (by omega), hne (by omega) (by omega), hne (by omega) (by omega)⟩
      · simp only [List.mem_cons, List.not_mem_nil, or_false, not_or]
        exact ⟨hne (by omega) (by omega), hne (by omega) (by omega), hne (by omega) (by omega),
          hne (by omega) (by omega)⟩

theorem zero_notMem_toUTF8 {s : String} (h : '\x00' ∉ s.toList) : 0 ∉ s.toUTF8.toList := by
  have hbytes : s.toUTF8.toList = s.toList.flatMap String.utf8EncodeChar := by
    rw [toList_toUTF8, String.toUTF8_eq_toByteArray, ← String.utf8Encode_toList]
    exact List.toList_data_toByteArray
  rw [hbytes, List.mem_flatMap]
  rintro ⟨c, hc, hzero⟩
  exact zero_notMem_utf8EncodeChar (ne_of_mem_of_not_mem hc h) hzero

theorem length_toUTF8 (s : String) : s.toUTF8.toList.length = s.utf8ByteSize := by
  rw [toList_toUTF8]
  rfl

theorem fromUTF8?_toUTF8 (s : String) : String.fromUTF8? s.toUTF8.toList.toByteArray = some s := by
  have hbytes : s.toUTF8.toList.toByteArray = s.toByteArray := by
    apply ByteArray.ext
    rw [List.data_toByteArray, toList_toUTF8, Array.toArray_toList, String.toUTF8_eq_toByteArray]
  unfold String.fromUTF8?
  rw [hbytes, dif_pos s.isValidUTF8]
  rfl

/-! ## Strings among words -/

variable {s : String}

/-- A string without NUL is read back, and the words after it are left. -/
theorem read?_ofString (h : '\x00' ∉ s.toList) (rest : List UInt32) :
    read? (ofString s ++ rest) = some (s, rest) := by
  have hzero := zero_notMem_toUTF8 h
  obtain ⟨n, hn, -, hbytes⟩ := flatMap_bytes_ofBytes s.toUTF8.toList
  unfold read? ofString
  rw [split?_ofBytes hzero, Option.bind_some, hbytes, takeWhile_ne_zero hzero hn, fromUTF8?_toUTF8]
  rfl

end Literal

namespace EntryPoint

variable {e e' : EntryPoint}

/-- The name of an entry point ends where its interface begins. -/
theorem read?_operands (h : '\x00' ∉ e.name.toList) :
    Literal.read? (e.inst.operands.drop 2) = some (e.name, e.interface.map Ref.word) :=
  Literal.read?_ofString h _

theorem eq_of_operands (h : '\x00' ∉ e.name.toList) (h' : '\x00' ∉ e'.name.toList)
    (heq : e.inst.operands = e'.inst.operands) : e = e' := by
  have hread := (read?_operands h).symm.trans (heq ▸ read?_operands h')
  obtain ⟨hname, hinterface⟩ := Prod.mk.inj (Option.some.inj hread)
  have hword (r r' : Ref) : r.word = r'.word → r = r' := congrArg Ref.mk
  obtain ⟨hmodel, hrest⟩ := List.cons.inj heq
  obtain ⟨hfunction, -⟩ := List.cons.inj hrest
  cases e
  cases e'
  simp only [EntryPoint.mk.injEq]
  exact ⟨hmodel, hword _ _ hfunction, hname, (List.map_inj_right hword).1 hinterface⟩

end EntryPoint

namespace Literal

/-- Literal strings are self-delimiting. The words of a string are one more than its bytes fill, and
their bytes are those of the string and one to four zeros. If the string has no NUL, its words are those
up to the first with a zero byte, whatever words follow, and the string is read back from them. So the
operands of an entry point determine its name and its interface. -/
theorem ofString_self_delimiting :
    (∀ s : String, (ofString s).length = s.utf8ByteSize / 4 + 1 ∧ ∃ n, 1 ≤ n ∧ n ≤ 4 ∧
      (ofString s).flatMap bytes = s.toUTF8.toList ++ List.replicate n 0) ∧
    (∀ (s : String) (rest : List UInt32), '\x00' ∉ s.toList →
      split? (ofString s ++ rest) = some (ofString s, rest) ∧
      read? (ofString s ++ rest) = some (s, rest)) ∧
    ∀ e e' : EntryPoint, '\x00' ∉ e.name.toList → '\x00' ∉ e'.name.toList →
      read? (e.inst.operands.drop 2) = some (e.name, e.interface.map Ref.word) ∧
      (e.inst.operands = e'.inst.operands → e = e') := by
  refine ⟨fun s => ⟨?_, flatMap_bytes_ofBytes _⟩, fun s rest h => ⟨?_, read?_ofString h rest⟩,
    fun e e' h h' => ⟨EntryPoint.read?_operands h, EntryPoint.eq_of_operands h h'⟩⟩
  · unfold ofString
    rw [length_ofBytes, length_toUTF8]
  · exact split?_ofBytes (zero_notMem_toUTF8 h) rest

/-- A name that fills its words is followed by a word of zeros. The words after it are left, a zero at
their start included. -/
theorem ofString_self_delimiting_main : '\x00' ∉ "main".toList ∧
    ofString "main" = [0x6e69616d, 0] ∧ read? (ofString "main" ++ [0, 9]) = some ("main", [0, 9]) := by
  have hname : '\x00' ∉ "main".toList := by decide
  exact ⟨hname, by decide +kernel, (ofString_self_delimiting.2.1 "main" [0, 9] hname).2⟩

end Literal

end TextureLift
