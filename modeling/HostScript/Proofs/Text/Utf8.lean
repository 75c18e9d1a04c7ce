import HostScript.Text.Utf8

/-!
# The bytes of a text

A text is encoded character by character (`encode_eq_flatMap`), and what is encoded can be told from
the bytes:

* `zero_mem_encodeChar_iff`: a zero byte stands for the NUL character and is part of no other.
* `decodeLossy_encode`: the bytes of a text are decoded into the text, without replacements.
-/

namespace HostScript.Text.Utf8

open String (utf8EncodeChar)

/-! ## Characters one after the other -/

/-- A byte array as a list, from a byte on. -/
theorem toList_loop (bytes : ByteArray) (i : Nat) (read : List UInt8) :
    ByteArray.toList.loop bytes i read = read.reverse ++ bytes.data.toList.drop i := by
  fun_induction ByteArray.toList.loop bytes i read with
  | case1 i read hi ih =>
    have hlength : i < bytes.data.toList.length := hi
    rw [ih, List.drop_eq_getElem_cons hlength]
    simp [ByteArray.get!, hi]
  | case2 i read hi =>
    rw [List.drop_eq_nil_of_le (by exact Nat.le_of_not_lt hi), List.append_nil]

theorem encode_eq_flatMap (text : String) : encode text = text.toList.flatMap utf8EncodeChar := by
  obtain ⟨cs, rfl⟩ := text.exists_eq_ofList
  have hbytes : (String.ofList cs).toUTF8 = (cs.flatMap utf8EncodeChar).toByteArray := rfl
  rw [encode, ByteArray.toList, toList_loop, hbytes, List.toList_data_toByteArray,
    String.toList_ofList]
  rfl

/-! ## Zero bytes -/

/-- **The NUL character is encoded as a zero byte, and no other character has one.** -/
theorem zero_mem_encodeChar_iff {c : Char} : 0 ∈ utf8EncodeChar c ↔ c = '\x00' := by
  have hval : c = '\x00' ↔ c.val.toNat = 0 := by
    rw [Char.ext_iff, ← UInt32.toNat_inj]
    rfl
  have hbyte : ∀ n, n < 256 → ((0 : UInt8) = UInt8.ofNat n ↔ n = 0) := by
    intro n hn
    rw [← UInt8.toNat_inj, UInt8.toNat_ofNat_of_lt' hn]
    exact eq_comm
  have hvalid := c.valid
  rw [hval]
  unfold utf8EncodeChar
  simp only
  split
  · rw [List.mem_singleton, hbyte _ (by omega)]
  split
  · simp only [List.mem_cons, List.not_mem_nil, or_false]
    rw [hbyte _ (by omega), hbyte _ (by omega)]
    omega
  split
  · simp only [List.mem_cons, List.not_mem_nil, or_false]
    rw [hbyte _ (by omega), hbyte _ (by omega), hbyte _ (by omega)]
    omega
  · simp only [List.mem_cons, List.not_mem_nil, or_false]
    rw [hbyte _ (by omega), hbyte _ (by omega), hbyte _ (by omega), hbyte _ (by omega)]
    omega

/-! ## Decoding -/

/-- A leading byte opens a sequence. -/
theorem decodeFrom_lead {b : Nat} {p : Partial} (hb : b < 256) (hlead : 0x80 ≤ b)
    (h : Partial.ofLead? b = some p) (rest : List UInt8) :
    decodeFrom none (UInt8.ofNat b :: rest) = decodeFrom (some p) rest := by
  simp [decodeFrom, step, start, UInt8.toNat_ofNat_of_lt' hb, Nat.not_lt.mpr hlead, h]

theorem toNat_nextByte {m : Nat} (hm : m < 64) : (UInt8.ofNat (m + 0x80)).toNat = m + 0x80 :=
  UInt8.toNat_ofNat_of_lt' (show m + 0x80 < 256 by omega)

/-- A byte in the range of an open sequence goes on with it. -/
theorem decodeFrom_next {code remaining low high m : Nat} (hm : m < 64) (hlow : low ≤ m + 0x80)
    (hhigh : m + 0x80 ≤ high) (hmore : remaining ≠ 1) (rest : List UInt8) :
    decodeFrom (some ⟨code, remaining, low, high⟩) (UInt8.ofNat (m + 0x80) :: rest) =
      decodeFrom (some ⟨code * 64 + m, remaining - 1, 0x80, 0xBF⟩) rest := by
  simp only [decodeFrom, step, toNat_nextByte hm, hlow, hhigh, hmore, and_self, if_true, if_false,
    Nat.add_sub_cancel, List.nil_append]

/-- The last byte of a sequence completes a character. -/
theorem decodeFrom_last {code low high m : Nat} (hm : m < 64) (hlow : low ≤ m + 0x80)
    (hhigh : m + 0x80 ≤ high) (rest : List UInt8) :
    decodeFrom (some ⟨code, 1, low, high⟩) (UInt8.ofNat (m + 0x80) :: rest) =
      Char.ofNat (code * 64 + m) :: decodeFrom none rest := by
  simp only [decodeFrom, step, toNat_nextByte hm, hlow, hhigh, and_self, if_true,
    Nat.add_sub_cancel, List.singleton_append]

theorem ofLead?_two {k : Nat} (hk : k < 32) (h : 2 ≤ k) :
    Partial.ofLead? (k + 0xC0) = some ⟨k, 1, 0x80, 0xBF⟩ := by
  rw [Partial.ofLead?, if_pos (by omega), Nat.add_sub_cancel]

/-- The second byte of three is in the range that the first one leaves for it: no shorter encoding
would do, and the character is no surrogate. -/
theorem ofLead?_three {k m : Nat} (hk : k < 16) (hm : m < 64) (hlong : k = 0 → 32 ≤ m)
    (hsurrogate : k = 13 → m < 32) :
    ∃ low high, Partial.ofLead? (k + 0xE0) = some ⟨k, 2, low, high⟩ ∧
      low ≤ m + 0x80 ∧ m + 0x80 ≤ high := by
  unfold Partial.ofLead?
  rw [if_neg (by omega)]
  by_cases hzero : k = 0
  · subst hzero
    exact ⟨_, _, rfl, by have := hlong rfl; omega, by omega⟩
  rw [if_neg (by omega)]
  by_cases hhigh : k = 13
  · subst hhigh
    exact ⟨_, _, rfl, by omega, by have := hsurrogate rfl; omega⟩
  rw [if_neg (by omega), if_pos (by omega), Nat.add_sub_cancel]
  exact ⟨_, _, rfl, by omega, by omega⟩

/-- The second byte of four is in the range that the first one leaves for it: no shorter encoding
would do, and the character is not beyond the last one. -/
theorem ofLead?_four {k m : Nat} (hk : k ≤ 4) (hm : m < 64) (hlong : k = 0 → 16 ≤ m)
    (hlast : k = 4 → m < 16) :
    ∃ low high, Partial.ofLead? (k + 0xF0) = some ⟨k, 3, low, high⟩ ∧
      low ≤ m + 0x80 ∧ m + 0x80 ≤ high := by
  unfold Partial.ofLead?
  rw [if_neg (by omega), if_neg (by omega), if_neg (by omega), if_neg (by omega)]
  by_cases hzero : k = 0
  · subst hzero
    exact ⟨_, _, rfl, by have := hlong rfl; omega, by omega⟩
  rw [if_neg (by omega)]
  by_cases hfour : k = 4
  · subst hfour
    exact ⟨_, _, rfl, by omega, by have := hlast rfl; omega⟩
  rw [if_pos (by omega), Nat.add_sub_cancel]
  exact ⟨_, _, rfl, by omega, by omega⟩

/-- **The bytes of a character are decoded into the character, whatever comes after them.** -/
theorem decodeFrom_encodeChar (c : Char) (rest : List UInt8) :
    decodeFrom none (utf8EncodeChar c ++ rest) = c :: decodeFrom none rest := by
  obtain ⟨n, hn⟩ : ∃ n, c.val.toNat = n := ⟨_, rfl⟩
  have hchar : Char.ofNat n = c := hn ▸ Char.ofNat_toNat c
  have hvalid : n < 0xD800 ∨ 0xDFFF < n ∧ n < 0x110000 := hn ▸ c.valid
  unfold utf8EncodeChar
  simp only [hn]
  split
  · have hb : n < 256 := by omega
    simp [decodeFrom, step, start, UInt8.toNat_ofNat_of_lt' hb, show n < 0x80 by omega, hchar]
  split
  · have hlead := ofLead?_two (k := n / 64 % 32) (by omega) (by omega)
    simp only [List.cons_append, List.nil_append]
    rw [decodeFrom_lead (by omega) (by omega) hlead,
      decodeFrom_last (by omega) (by omega) (by omega), ← hchar]
    congr 2
    omega
  split
  · obtain ⟨low, high, hlead, hlow, hhigh⟩ := ofLead?_three (k := n / 4096 % 16)
      (m := n / 64 % 64) (by omega) (by omega) (by omega) (by omega)
    simp only [List.cons_append, List.nil_append]
    rw [decodeFrom_lead (by omega) (by omega) hlead,
      decodeFrom_next (by omega) hlow hhigh (by decide),
      decodeFrom_last (by omega) (by omega) (by omega), ← hchar]
    congr 2
    omega
  · obtain ⟨low, high, hlead, hlow, hhigh⟩ := ofLead?_four (k := n / 262144 % 8)
      (m := n / 4096 % 64) (by omega) (by omega) (by omega) (by omega)
    simp only [List.cons_append, List.nil_append]
    rw [decodeFrom_lead (by omega) (by omega) hlead,
      decodeFrom_next (by omega) hlow hhigh (by decide),
      decodeFrom_next (by omega) (by omega) (by omega) (by decide),
      decodeFrom_last (by omega) (by omega) (by omega), ← hchar]
    congr 2
    omega

/-- **The bytes of a text are decoded into the text.** -/
theorem decodeLossy_encode (text : String) : decodeLossy (encode text) = text := by
  have hchars : ∀ cs : List Char, decodeFrom none (cs.flatMap utf8EncodeChar) = cs := by
    intro cs
    induction cs with
    | nil => rfl
    | cons c cs ih => rw [List.flatMap_cons, decodeFrom_encodeChar, ih]
  rw [decodeLossy, encode_eq_flatMap, hchars, String.ofList_toList]

end HostScript.Text.Utf8
