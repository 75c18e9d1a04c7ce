import HostScript.Number.Shortest
import HostScript.Proofs.Number.Rounding
import HostScript.Proofs.Number.Spelling

/-!
# Numerals read back

What is written for a number is an atom that reads as this number: `atom_intChars` for integers,
`atom_finiteChars` for finite decimals.

A finite decimal is written as digits, a point and digits, and its digits are chosen so that they
are rounded to it (`exists_magnitudeChars_eq`). All else is said by how numerals are spelled.
-/

namespace HostScript

/-! ## Digits -/

theorem natChars_isDigit (n : Nat) : ∀ c ∈ Integer.natChars n, c.isDigit = true := fun _ hc =>
  Nat.isDigit_of_mem_toDigits (by decide) (by decide) hc

theorem ofDigitChars_natChars (n : Nat) : Nat.ofDigitChars 10 (Integer.natChars n) 0 = n :=
  Nat.ofDigitChars_ten_toDigits

theorem natChars_ne_nil (n : Nat) : Integer.natChars n ≠ [] := Nat.toDigits_ne_nil

/-- What is written before a magnitude. -/
def signChars (negative : Bool) : List Char := if negative then ['-'] else []

theorem sign_signChars (negative : Bool) : Sign (signChars negative) negative := by
  cases negative with
  | false => exact .absent
  | true => exact .minus

/-! ## Integers -/

/-- **An integer is written as a numeral for it.** -/
theorem Integer.spells_chars (n : Int) : Integer.Spells (Integer.chars n) n := by
  cases n with
  | ofNat n =>
    have h := Integer.Spells.mk .absent (natChars_ne_nil n) (natChars_isDigit n)
    rw [ofDigitChars_natChars] at h
    exact h
  | negSucc n =>
    have h := Integer.Spells.mk .minus (natChars_ne_nil (n + 1)) (natChars_isDigit (n + 1))
    rw [ofDigitChars_natChars] at h
    exact h

theorem atom_intChars (value : Int64) : Reader.atom (Integer.chars value.toInt) = .int value := by
  rw [Reader.atom, Integer.int64?_eq_some_iff.mpr (Integer.spells_chars value.toInt)]

/-! ## Decimals with a point -/

/-- **Digits, a point and digits are a decimal with the places that stand after the point.** -/
theorem Decimal.spells_point (negative : Bool) {whole fraction : List Char} (hne : whole ≠ [])
    (hw : IsDigits whole) (hf : IsDigits fraction) :
    Decimal.Spells (signChars negative ++ whole ++ '.' :: fraction)
      ⟨negative, Nat.ofDigitChars 10 (whole ++ fraction) 0, 0 - fraction.length⟩ := by
  have h := Decimal.Spells.mk (sign_signChars negative) (.point (Or.inl hne) hw hf) .absent
  rwa [List.append_nil, ← List.append_assoc] at h

/-- A text with a point is no integer. -/
theorem int64?_point (before after : List Char) :
    Integer.int64? (before ++ '.' :: after) = none := by
  refine Integer.int64?_eq_none_iff.mpr fun value h => ?_
  exact h.not_mem_point (List.mem_append_right before List.mem_cons_self)

/-! ## The digits of a magnitude -/

namespace Binary64

theorem readsBack_iff {rank places coefficient : Nat} :
    readsBack rank places coefficient = true ↔
      roundRank (coefficient * unitsPerOne) (Nat.pow 10 places) = rank := by
  simp [readsBack]

theorem passes_of_passingNeighbour {passes : Nat → Bool} {lower n : Nat} {preferUpper : Bool}
    (h : passingNeighbour passes lower preferUpper = some n) : passes n = true := by
  unfold passingNeighbour at h
  split at h
  · next hl hu =>
    cases preferUpper with
    | true =>
      obtain rfl := Option.some.inj h
      exact hu
    | false =>
      obtain rfl := Option.some.inj h
      exact hl
  · next hl _ =>
    obtain rfl := Option.some.inj h
    exact hl
  · next _ hu =>
    obtain rfl := Option.some.inj h
    exact hu
  · cases h

theorem readsBack_of_coefficient? {rank places coefficient : Nat}
    (h : coefficient? rank places = some coefficient) :
    readsBack rank places coefficient = true := passes_of_passingNeighbour h

/-- With as many places as one has halvings down to a unit every magnitude is written exactly. -/
theorem readsBack_exact {places : Nat} (hplaces : 1074 = places) (rank : Nat) :
    readsBack rank places (units rank * Nat.pow 10 places / unitsPerOne) = true := by
  have h : unitsPerOne = 2 ^ places := by
    unfold unitsPerOne
    rw [hplaces, Nat.pow_eq]
  have hdvd : unitsPerOne ∣ units rank * 10 ^ places := by
    rw [h, show (10 : Nat) = 2 * 5 from rfl, Nat.mul_pow]
    exact Nat.dvd_trans (Nat.dvd_mul_right _ _) (Nat.dvd_mul_left _ _)
  have hr := roundRank_mul_right (units rank) 1 (k := 10 ^ places) (Nat.pow_pos (by decide))
  rw [Nat.one_mul] at hr
  rw [readsBack_iff, Nat.pow_eq, Nat.div_mul_cancel hdvd, hr, roundRank_units]

/-- The search for the fewest places ends with what passes a test that every coefficient passes. -/
theorem fewestPlaces_spec {p : Nat → Nat → Prop} {coefficient? : Nat → Option Nat}
    {exact : Nat → Nat} (hc : ∀ places c, coefficient? places = some c → p places c) :
    ∀ further places last : Nat, places + further = last → p last (exact last) →
      p (fewestPlaces coefficient? exact further places).1
          (fewestPlaces coefficient? exact further places).2 ∧
        places ≤ (fewestPlaces coefficient? exact further places).1
  | 0, places, last, hlast, he => by
    rw [Nat.add_zero] at hlast
    subst hlast
    exact ⟨he, Nat.le_refl places⟩
  | further + 1, places, last, hlast, he => by
    rw [fewestPlaces]
    split
    · next c h => exact ⟨hc places c h, Nat.le_refl places⟩
    · obtain ⟨hp, hle⟩ := fewestPlaces_spec hc further (places + 1) last (by omega) he
      exact ⟨hp, Nat.le_of_succ_le hle⟩

/-- **The shortest digits of a magnitude are rounded to it.** -/
theorem readsBack_shortest (rank : Nat) :
    readsBack rank (shortest rank).1 (shortest rank).2 = true ∧ 1 ≤ (shortest rank).1 := by
  -- The number of places stays a variable: its power of ten must not be computed.
  obtain ⟨last, hlast⟩ : ∃ last, 1074 = last := ⟨_, rfl⟩
  have hexact := readsBack_exact hlast rank
  unfold shortest
  exact fewestPlaces_spec (p := fun places c => readsBack rank places c = true)
    (fun _ _ => readsBack_of_coefficient?) 1073 1 last (by omega) hexact

/-- The digits on both sides of a point that is `places` places before the end. -/
theorem placePoint_eq {places : Nat} (hp : 0 < places) (coefficient : Nat) :
    ∃ whole fraction : List Char, placePoint places coefficient = whole ++ '.' :: fraction ∧
      whole ≠ [] ∧ (∀ c ∈ whole, c.isDigit = true) ∧ (∀ c ∈ fraction, c.isDigit = true) ∧
      fraction.length = places ∧ Nat.ofDigitChars 10 (whole ++ fraction) 0 = coefficient := by
  have hlt : coefficient % 10 ^ places < 10 ^ places := Nat.mod_lt _ (Nat.pow_pos (by decide))
  have hlen : (Integer.natChars (coefficient % 10 ^ places)).length ≤ places :=
    (Nat.length_toDigits_le_iff (by decide) hp).mpr hlt
  refine ⟨_, _, rfl, natChars_ne_nil _, natChars_isDigit _, ?_, ?_, ?_⟩
  · intro c hc
    rcases List.mem_append.mp hc with hc | hc
    · rw [(List.mem_replicate.mp hc).2]; rfl
    · exact natChars_isDigit _ c hc
  · rw [List.length_append, List.length_replicate, Nat.pow_eq]
    omega
  · rw [Nat.pow_eq, Nat.ofDigitChars_append, Nat.ofDigitChars_append,
      Nat.ofDigitChars_replicate_zero, Nat.ofDigitChars_eq_ofDigitChars_zero, ofDigitChars_natChars,
      ofDigitChars_natChars, ← Nat.mul_assoc, ← Nat.pow_add, Nat.add_sub_cancel' hlen]
    exact Nat.div_add_mod coefficient (10 ^ places)

theorem magnitudeChars_of_whole {rank : Nat} (h : units rank % unitsPerOne = 0) :
    magnitudeChars rank = Integer.natChars (units rank / unitsPerOne) ++ ['.', '0'] := by
  rw [magnitudeChars, if_pos h]

theorem magnitudeChars_of_fraction {rank : Nat} (h : ¬units rank % unitsPerOne = 0) :
    magnitudeChars rank = placePoint (shortest rank).1 (shortest rank).2 := by
  rw [magnitudeChars, if_neg h]

/-- A text that stands for the magnitude of a rank: digits, a point and digits that are rounded
to it. -/
structure Shows (rank : Nat) (whole fraction : List Char) : Prop where
  whole_ne_nil : whole ≠ []
  whole_digits : ∀ c ∈ whole, c.isDigit = true
  fraction_digits : ∀ c ∈ fraction, c.isDigit = true
  fraction_pos : 0 < fraction.length
  rounds : roundRank (Nat.ofDigitChars 10 (whole ++ fraction) 0 * unitsPerOne)
    (Nat.pow 10 fraction.length) = rank

theorem shows_whole {rank : Nat} (h : units rank % unitsPerOne = 0) :
    Shows rank (Integer.natChars (units rank / unitsPerOne)) ['0'] where
  whole_ne_nil := natChars_ne_nil _
  whole_digits := natChars_isDigit _
  fraction_digits := by simp
  fraction_pos := by simp
  rounds := by
    have hr := roundRank_mul_right (units rank) 1 (k := 10) (by decide)
    have hd : ∀ n : Nat, Nat.ofDigitChars 10 ['0'] n = 10 * n := fun n => by
      simp [Nat.ofDigitChars_cons]
    rw [Nat.ofDigitChars_append, ofDigitChars_natChars, hd, Nat.mul_assoc,
      Nat.div_mul_cancel (Nat.dvd_of_mod_eq_zero h), Nat.mul_comm, List.length_singleton,
      Nat.pow_eq, Nat.pow_one]
    rw [Nat.one_mul] at hr
    rw [hr, roundRank_units]

/-- **A magnitude is written as digits, a point and digits that are rounded to it.** -/
theorem exists_magnitudeChars_eq (rank : Nat) :
    ∃ whole fraction : List Char,
      magnitudeChars rank = whole ++ '.' :: fraction ∧ Shows rank whole fraction := by
  by_cases h : units rank % unitsPerOne = 0
  · exact ⟨_, _, magnitudeChars_of_whole h, shows_whole h⟩
  · obtain ⟨hread, hpos⟩ := readsBack_shortest rank
    obtain ⟨whole, fraction, heq, hne, hw, hf, hlen, hval⟩ :=
      placePoint_eq hpos (shortest rank).2
    refine ⟨whole, fraction, (magnitudeChars_of_fraction h).trans heq, hne, hw, hf, ?_, ?_⟩
    · omega
    · rw [hval, hlen]
      exact readsBack_iff.mp hread

/-! ## Decimals as atoms -/

/-- What is written for a finite number is a text that stands for its magnitude after the sign. -/
theorem exists_chars_eq (negative : Bool) (rank : Fin rankLimit) :
    ∃ whole fraction : List Char,
      (finite negative rank).chars = signChars negative ++ whole ++ '.' :: fraction ∧
        Shows rank whole fraction := by
  obtain ⟨whole, fraction, heq, hw⟩ := exists_magnitudeChars_eq rank
  refine ⟨whole, fraction, ?_, hw⟩
  rw [chars, heq, List.append_assoc]
  rfl

/-- **A finite decimal reads back, the sign of a zero included.** -/
theorem atom_finiteChars (negative : Bool) (rank : Fin rankLimit) :
    Reader.atom (finite negative rank).chars = .dec (finite negative rank) := by
  obtain ⟨whole, fraction, heq, hw⟩ := exists_chars_eq negative rank
  obtain ⟨e, he⟩ := Nat.exists_eq_add_one_of_ne_zero (Nat.ne_of_gt hw.fraction_pos)
  have hexp : (0 : Int) - (fraction.length : Int) = .negSucc e := by omega
  have hround := hw.rounds
  rw [he] at hround
  have hspells := Decimal.spells_point negative hw.whole_ne_nil hw.whole_digits hw.fraction_digits
  rw [heq, Reader.atom, int64?_point, Reader.decimal?_eq, Decimal.ofChars?_eq_some_iff.mpr hspells,
    hexp]
  dsimp only [Option.map_some]
  rw [ofDecimal_negSucc, ofUnits_eq_finite hround]

end Binary64

end HostScript
