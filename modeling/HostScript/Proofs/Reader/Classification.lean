import HostScript.Proofs.Number.Nearest
import HostScript.Proofs.Reader.Roundtrip

/-!
# What words are read as

A word that is a script by itself is read as what it stands for by how numerals are spelled
(`readForms_word`).

An integer that does not fit 64 bits is a numeral for a decimal without a point and without an
exponent. It is read as the floating number nearest to it, which is another number unless the
integer is itself a floating number (`readForms_integer`).
-/

namespace HostScript

/-! ## Integers among the decimals -/

/-- An integer numeral is a decimal numeral without an exponent. -/
theorem Integer.Spells.decimal {cs : List Char} {n : Int} (h : Integer.Spells cs n) :
    ∃ negative, Decimal.Spells cs ⟨negative, n.natAbs, 0⟩ ∧ (n ≠ 0 → negative = decide (n < 0)) := by
  rcases h with @⟨sign, digits, negative, hsign, hne, hd⟩
  have hspells := Decimal.Spells.mk hsign (.whole hne hd) .absent
  rw [List.append_nil, Int.natCast_zero, Int.sub_zero] at hspells
  generalize Nat.ofDigitChars 10 digits 0 = m at hspells ⊢
  refine ⟨negative, ?_, ?_⟩
  · cases negative with
    | false => exact hspells
    | true =>
      show Decimal.Spells _ ⟨true, (-(m : Int)).natAbs, 0⟩
      rwa [Int.natAbs_neg, Int.natAbs_natCast]
  · intro hzero
    cases negative with
    | false => simp
    | true =>
      simp only [if_true] at hzero ⊢
      exact (decide_eq_true (by omega)).symm

namespace Reader

/-! ## Characters of numerals -/

/-- An integer numeral is a word. -/
theorem exists_word_of_spells {cs : List Char} {n : Int} (h : Integer.Spells cs n) :
    ∃ w : Word, w.chars = cs := by
  have hplain : ∀ c ∈ cs, IsPlain c := fun c hc =>
    isPlain_of_isDecimalChar (isDecimalChar_of_mem_integer h hc)
  have hne : cs ≠ [] := by
    obtain ⟨-, hne, -⟩ := h
    exact List.append_ne_nil_of_right_ne_nil _ hne
  exact ⟨⟨cs, hne, hplain⟩, rfl⟩

theorem exists_isDigit_of_decimal {cs : List Char} {d : Decimal} (h : Decimal.Spells cs d) :
    ∃ c ∈ cs, c.isDigit = true := by
  obtain ⟨-, hmantissa, -⟩ := h
  obtain ⟨c, hc, hdigit⟩ := hmantissa.exists_isDigit
  exact ⟨c, List.mem_append_right _ (List.mem_append_left _ hc), hdigit⟩

/-! ## Classification -/

/-- A word without digits is a symbol. -/
theorem denotes_symbol_of_not_isDigit {cs : List Char} (h : ∀ c ∈ cs, c.isDigit = false) :
    Denotes cs (.symbol (String.ofList cs)) := by
  have hnone : ¬ ∃ c ∈ cs, c.isDigit = true := by
    rintro ⟨c, hc, hdigit⟩
    rw [h c hc] at hdigit
    cases hdigit
  refine .symbol (fun value hint => ?_) fun d hd => hnone (exists_isDigit_of_decimal hd)
  obtain ⟨negative, hd, -⟩ := hint.decimal
  exact hnone (exists_isDigit_of_decimal hd)

/-- A word by itself is a script. -/
theorem readForms_chars (w : Word) : readForms (String.ofList w.chars) = .ok [atom w.chars] := by
  have hends : EndsWord [] := by
    intro c hc
    cases hc
  have hlexes : Lexes w.chars [.word w] := by
    simpa using Lexes.word w hends .nil
  refine readForms_eq_ok_iff.mpr ⟨⟨[.word w], ?_, .singleton (.atom w)⟩, fun f hf => ?_⟩
  · rwa [String.toList_ofList]
  · rw [List.mem_singleton.mp hf, nesting_atom]
    decide

/-- **A word is read as what it stands for by how numerals are spelled.** So a word without digits
is always a symbol, such as the names of infinity and of what is not a number, and so is what only
looks like a numeral. -/
theorem readForms_word (w : Word) :
    readForms (String.ofList w.chars) = .ok [atom w.chars] ∧
    (∀ e, atom w.chars = e ↔ Denotes w.chars e) ∧
    ((∀ c ∈ w.chars, c.isDigit = false) → atom w.chars = .symbol (String.ofList w.chars)) ∧
    ∀ name ∈ ["1.2.3", "2024-01-02", "1e", "+", "++5", ".e5"],
      readForms name = .ok [.symbol name] := by
  refine ⟨readForms_chars w, fun e => ⟨?_, Denotes.atom_eq⟩, fun h => ?_, fun name hname => ?_⟩
  · rintro rfl
    exact denotes_atom w.chars
  · exact (denotes_symbol_of_not_isDigit h).atom_eq
  · simp only [List.mem_cons, List.not_mem_nil, or_false] at hname
    rcases hname with rfl | rfl | rfl | rfl | rfl | rfl <;> rfl

/-! ## Integers of any size -/

/-- **An integer is read as itself if it fits 64 bits, and otherwise as the floating number that it
is correctly rounded to, which is the integer itself exactly if it has a magnitude of such
numbers.** -/
theorem readForms_integer {cs : List Char} {n : Int} (h : Integer.Spells cs n) :
    (∃ value : Int64, value.toInt = n ∧ readForms (String.ofList cs) = .ok [.int value]) ∨
    ((n < -9223372036854775808 ∨ 9223372036854775807 < n) ∧
      ∃ x : Binary64, readForms (String.ofList cs) = .ok [.dec x] ∧
        x.Rounds (decide (n < 0)) n.natAbs ∧
        (x.value? = some (n : ℚ) ↔
          ∃ rank : Fin Binary64.rankLimit, Binary64.magnitude rank = n.natAbs)) := by
  obtain ⟨w, rfl⟩ := exists_word_of_spells h
  rw [readForms_chars]
  by_cases hfits : -9223372036854775808 ≤ n ∧ n ≤ 9223372036854775807
  · left
    have hvalue : (Int64.ofInt n).toInt = n := Int64.toInt_ofInt_of_le (by omega) (by omega)
    refine ⟨Int64.ofInt n, hvalue, ?_⟩
    rw [(Denotes.int (hvalue.symm ▸ h)).atom_eq]
  · right
    have hint : ∀ value : Int64, ¬ Integer.Spells w.chars value.toInt := by
      intro value hvalue
      have hle := value.le_toInt
      have hlt := value.toInt_lt
      have hsame := h.unique hvalue
      omega
    obtain ⟨negative, hspells, hnegative⟩ := h.decimal
    obtain rfl := hnegative (by omega)
    have hread := Denotes.dec hint hspells (Binary64.roundsTo_ofDecimal _)
    have hrounds := Binary64.roundsTo_ofDecimal ⟨decide (n < 0), n.natAbs, 0⟩
    have hmagnitude : Decimal.magnitude ⟨decide (n < 0), n.natAbs, 0⟩ = n.natAbs := by
      rw [Decimal.magnitude, zpow_zero, mul_one]
    rw [Decimal.RoundsTo, hmagnitude] at hrounds
    refine ⟨by omega, _, ?_, hrounds, hrounds.value?_eq_intCast_iff⟩
    rw [hread.atom_eq]

/-- The least integer that fits. -/
theorem readForms_integer_least :
    let cs := "-9223372036854775808".toList
    Integer.Spells cs (-9223372036854775808) ∧
      readForms (String.ofList cs) = .ok [.int Int64.minValue] := by
  intro cs
  have hspells : Integer.Spells cs (-9223372036854775808) :=
    Integer.ofChars?_eq_some_iff.mp rfl
  rcases readForms_integer hspells with ⟨value, hvalue, hread⟩ | ⟨hout, -⟩
  · have hmin : value = Int64.minValue := Int64.toInt_inj.mp hvalue
    rw [hmin] at hread
    exact ⟨hspells, hread⟩
  · omega

/-- An integer that is too large is read as the floating number next to it, without an error. -/
theorem readForms_integer_rounded :
    let cs := "9223372036854775809".toList
    Integer.Spells cs 9223372036854775809 ∧
      ∃ x : Binary64, readForms (String.ofList cs) = .ok [.dec x] ∧
        x.value? = some 9223372036854775808 := by
  intro cs
  have hspells : Integer.Spells cs 9223372036854775809 := Integer.ofChars?_eq_some_iff.mp rfl
  obtain ⟨w, hw⟩ := exists_word_of_spells hspells
  have hint : Integer.int64? cs = none := rfl
  let x : Binary64 := .finite false ⟨1086 * Binary64.binade, by decide⟩
  have hdec : decimal? cs = some x := by
    rw [decimal?_eq, show Decimal.ofChars? cs = some ⟨false, 9223372036854775809, 0⟩ from rfl]
    exact congrArg some (by decide +kernel)
  refine ⟨hspells, x, ?_, ?_⟩
  · rw [← hw, readForms_chars, hw, atom, hint, hdec]
  · have hunits : Binary64.units (1086 * Binary64.binade) =
        9223372036854775808 * Binary64.unitsPerOne := by decide +kernel
    have hpos : (Binary64.unitsPerOne : ℚ) ≠ 0 := by exact_mod_cast Binary64.unitsPerOne_pos.ne'
    show some (Binary64.magnitude (1086 * Binary64.binade)) = _
    rw [Binary64.magnitude, hunits, Nat.cast_mul, mul_div_cancel_right₀ _ hpos]
    norm_num

end Reader

end HostScript
