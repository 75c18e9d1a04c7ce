import HostScript.Reader.Atom
import Mathlib.Data.List.TakeWhile

/-!
# How numerals are spelled

The grammar of numerals, apart from how they are read: `Integer.Spells` for integers and
`Decimal.Spells` for decimals. Reading a text gives a number exactly if the text spells it
(`Integer.ofChars?_eq_some_iff`, `Decimal.ofChars?_eq_some_iff`).

A numeral is read by splitting it where the run of digits ends, and digits end where a point, an
exponent mark or nothing follows. So each part of a spelling is what the split gives.
-/

namespace HostScript

/-! ## Signs and digits -/

/-- What may stand before a numeral, and whether it is a minus. -/
inductive Sign : List Char → Bool → Prop
  | absent : Sign [] false
  | plus : Sign ['+'] false
  | minus : Sign ['-'] true

/-- The text does not begin with a sign. -/
def Unsigned (cs : List Char) : Prop := ∀ c, cs.head? = some c → c ≠ '+' ∧ c ≠ '-'

theorem exists_sign {cs body : List Char} {negative : Bool}
    (h : splitSign cs = (negative, body)) : ∃ sign, Sign sign negative ∧ cs = sign ++ body := by
  unfold splitSign at h
  split at h
  · cases h
    exact ⟨['+'], .plus, rfl⟩
  · cases h
    exact ⟨['-'], .minus, rfl⟩
  · cases h
    exact ⟨[], .absent, rfl⟩

theorem splitSign_of_unsigned {cs : List Char} (h : Unsigned cs) : splitSign cs = (false, cs) := by
  unfold splitSign
  split
  · exact absurd rfl (h '+' rfl).1
  · exact absurd rfl (h '-' rfl).2
  · rfl

theorem Sign.splitSign_append {sign cs : List Char} {negative : Bool} (h : Sign sign negative)
    (hcs : Unsigned cs) : splitSign (sign ++ cs) = (negative, cs) := by
  cases h with
  | absent => exact splitSign_of_unsigned hcs
  | plus => rfl
  | minus => rfl

/-- All characters are digits. -/
def IsDigits (cs : List Char) : Prop := ∀ c ∈ cs, c.isDigit = true

/-- No run of digits goes on into the text. -/
def EndsDigits (cs : List Char) : Prop := ∀ c, cs.head? = some c → c.isDigit = false

theorem unsigned_cons_of_isDigit {c : Char} (h : c.isDigit = true) (cs : List Char) :
    Unsigned (c :: cs) := by
  intro d hd
  rw [← Option.some.inj hd]
  refine ⟨fun hc => ?_, fun hc => ?_⟩
  · rw [hc] at h
    exact absurd h (by decide)
  · rw [hc] at h
    exact absurd h (by decide)

theorem unsigned_digits_append {ds : List Char} (hne : ds ≠ []) (hd : IsDigits ds)
    (cs : List Char) : Unsigned (ds ++ cs) := by
  obtain ⟨d, ds, rfl⟩ := List.exists_cons_of_ne_nil hne
  exact unsigned_cons_of_isDigit (hd d List.mem_cons_self) (ds ++ cs)

theorem takeWhile_run {p : Char → Bool} {run cs : List Char} (hrun : ∀ c ∈ run, p c = true)
    (hcs : ∀ c, cs.head? = some c → p c = false) : (run ++ cs).takeWhile p = run := by
  rw [List.takeWhile_append_of_pos hrun]
  cases cs with
  | nil => simp
  | cons c cs => simp [hcs c rfl]

theorem dropWhile_run {p : Char → Bool} {run cs : List Char} (hrun : ∀ c ∈ run, p c = true)
    (hcs : ∀ c, cs.head? = some c → p c = false) : (run ++ cs).dropWhile p = cs := by
  rw [List.dropWhile_append_of_pos hrun]
  cases cs with
  | nil => rfl
  | cons c cs => simp [hcs c rfl]

theorem isDigits_takeWhile (cs : List Char) : IsDigits (cs.takeWhile Char.isDigit) :=
  fun _ hc => List.mem_takeWhile_imp hc

/-! ## Integers -/

namespace Integer

/-- `Spells cs n` says that the text `cs` is a numeral for the integer `n`: an optional sign and one
or more digits. -/
inductive Spells : List Char → Int → Prop
  | mk {sign digits : List Char} {negative : Bool} :
    Sign sign negative → digits ≠ [] → IsDigits digits →
    Spells (sign ++ digits) (if negative then -(Nat.ofDigitChars 10 digits 0 : Int)
      else Nat.ofDigitChars 10 digits 0)

/-- `SpellsNat cs n` says that the text `cs` is a numeral for the natural number `n` without a minus
sign. -/
inductive SpellsNat : List Char → Nat → Prop
  | mk {sign digits : List Char} :
    Sign sign false → digits ≠ [] → IsDigits digits →
    SpellsNat (sign ++ digits) (Nat.ofDigitChars 10 digits 0)

theorem digits?_eq_some_iff {cs : List Char} {n : Nat} :
    digits? cs = some n ↔ cs ≠ [] ∧ IsDigits cs ∧ Nat.ofDigitChars 10 cs 0 = n := by
  unfold digits?
  split
  · next h =>
    have hdigits : cs ≠ [] ∧ IsDigits cs := by simpa [IsDigits] using h
    simp [hdigits]
  · next h =>
    have hnot : ¬ (cs ≠ [] ∧ IsDigits cs) := by simpa [IsDigits] using h
    simp only [reduceCtorEq, false_iff]
    exact fun hcs => hnot ⟨hcs.1, hcs.2.1⟩

theorem ofChars?_of_splitSign {cs body : List Char} {negative : Bool}
    (h : splitSign cs = (negative, body)) :
    ofChars? cs = (digits? body).map fun n : Nat => if negative then -(n : Int) else n := by
  simp only [ofChars?, h]
  cases digits? body <;> rfl

/-- **A text is read as an integer exactly if it spells it.** -/
theorem ofChars?_eq_some_iff {cs : List Char} {n : Int} : ofChars? cs = some n ↔ Spells cs n := by
  constructor
  · intro h
    rcases hsplit : splitSign cs with ⟨negative, body⟩
    obtain ⟨sign, hsign, rfl⟩ := exists_sign hsplit
    rw [ofChars?_of_splitSign hsplit] at h
    obtain ⟨m, hm, rfl⟩ := Option.map_eq_some_iff.mp h
    obtain ⟨hne, hd, rfl⟩ := digits?_eq_some_iff.mp hm
    exact .mk hsign hne hd
  · rintro ⟨hsign, hne, hd⟩
    have hunsigned := unsigned_digits_append hne hd []
    rw [List.append_nil] at hunsigned
    rw [ofChars?_of_splitSign (hsign.splitSign_append hunsigned),
      digits?_eq_some_iff.mpr ⟨hne, hd, rfl⟩]
    rfl

/-- A text spells one integer only. -/
theorem Spells.unique {cs : List Char} {m n : Int} (hm : Spells cs m) (hn : Spells cs n) : m = n := by
  rw [← ofChars?_eq_some_iff] at hm hn
  exact Option.some.inj (hm.symm.trans hn)

theorem int64?_eq_some_iff {cs : List Char} {value : Int64} :
    int64? cs = some value ↔ Spells cs value.toInt := by
  have hle := value.le_toInt
  have hlt := value.toInt_lt
  unfold int64?
  constructor
  · intro h
    obtain ⟨n, hn, hvalue⟩ := Option.bind_eq_some_iff.mp h
    obtain ⟨hrange, hvalue⟩ := Option.ite_none_right_eq_some.mp hvalue
    have htoInt : value.toInt = n := by
      rw [← Option.some.inj hvalue]
      exact Int64.toInt_ofInt_of_le (by omega) (by omega)
    rw [htoInt]
    exact ofChars?_eq_some_iff.mp hn
  · intro h
    rw [ofChars?_eq_some_iff.mpr h, Option.bind_some, if_pos (by omega), Int64.ofInt_toInt]

theorem int64?_eq_none_iff {cs : List Char} :
    int64? cs = none ↔ ∀ value : Int64, ¬ Spells cs value.toInt := by
  simp only [Option.eq_none_iff_forall_ne_some, ne_eq, int64?_eq_some_iff]

theorem Spells.not_mem_point {cs : List Char} {n : Int} (h : Spells cs n) : '.' ∉ cs := by
  obtain ⟨hsign, -, hd⟩ := h
  intro hpoint
  rcases List.mem_append.mp hpoint with hpoint | hpoint
  · cases hsign <;> simp at hpoint
  · exact absurd (hd '.' hpoint) (by decide)

/-- A run of digits fits 64 bits if some number of 64 bits is its value. -/
theorem bind_digits?_eq_some_iff {cs : List Char} {n : UInt64} :
    ((digits? cs).bind fun m => if m < UInt64.size then some (UInt64.ofNat m) else none) = some n ↔
      cs ≠ [] ∧ IsDigits cs ∧ Nat.ofDigitChars 10 cs 0 = n.toNat := by
  rw [← digits?_eq_some_iff]
  constructor
  · intro h
    obtain ⟨m, hm, hvalue⟩ := Option.bind_eq_some_iff.mp h
    obtain ⟨hrange, hvalue⟩ := Option.ite_none_right_eq_some.mp hvalue
    rw [hm, ← Option.some.inj hvalue, UInt64.toNat_ofNat_of_lt' hrange]
  · intro h
    rw [h, Option.bind_some, if_pos n.toNat_lt_size, UInt64.ofNat_toNat]

theorem uint64?_eq_some_iff {cs : List Char} {n : UInt64} :
    uint64? cs = some n ↔ SpellsNat cs n.toNat := by
  constructor
  · intro h
    unfold uint64? at h
    split at h
    · obtain ⟨hne, hd, hn⟩ := bind_digits?_eq_some_iff.mp h
      exact hn ▸ .mk .plus hne hd
    · obtain ⟨hne, hd, hn⟩ := bind_digits?_eq_some_iff.mp h
      exact hn ▸ .mk .absent hne hd
  · intro h
    generalize hn : n.toNat = value at h
    obtain ⟨hsign, hne, hd⟩ := h
    cases hsign with
    | absent =>
      rw [List.nil_append, uint64?]
      · exact bind_digits?_eq_some_iff.mpr ⟨hne, hd, hn.symm⟩
      · rintro rest rfl
        exact absurd (hd '+' List.mem_cons_self) (by decide)
    | plus => exact bind_digits?_eq_some_iff.mpr ⟨hne, hd, hn.symm⟩

end Integer

/-! ## Decimals -/

namespace Decimal

/-- `Mantissa cs coefficient places` says that `cs` is made up of digits with the value
`coefficient`, the last `places` of them after a point. The point may be missing, and digits may be
missing on one side of it. -/
inductive Mantissa : List Char → Nat → Nat → Prop
  | whole {digits : List Char} :
    digits ≠ [] → IsDigits digits → Mantissa digits (Nat.ofDigitChars 10 digits 0) 0
  | point {whole fraction : List Char} :
    whole ≠ [] ∨ fraction ≠ [] → IsDigits whole → IsDigits fraction →
    Mantissa (whole ++ '.' :: fraction) (Nat.ofDigitChars 10 (whole ++ fraction) 0) fraction.length

/-- `ExponentPart cs n` says that `cs` is empty and `n` is zero, or that `cs` is an `e` in either
case and a numeral for `n`. -/
inductive ExponentPart : List Char → Int → Prop
  | absent : ExponentPart [] 0
  | mark {c : Char} {cs : List Char} {n : Int} :
    c = 'e' ∨ c = 'E' → Integer.Spells cs n → ExponentPart (c :: cs) n

/-- `Spells cs d` says that the text `cs` is a numeral for the decimal `d`: an optional sign, digits
with an optional point, and an optional exponent part. -/
inductive Spells : List Char → Decimal → Prop
  | mk {sign mantissa exponentPart : List Char} {negative : Bool} {coefficient places : Nat}
      {exponent : Int} :
    Sign sign negative → Mantissa mantissa coefficient places →
    ExponentPart exponentPart exponent →
    Spells (sign ++ (mantissa ++ exponentPart)) ⟨negative, coefficient, exponent - places⟩

theorem exponent?_eq_some_iff {cs : List Char} {n : Int} :
    exponent? cs = some n ↔ ExponentPart cs n := by
  constructor
  · intro h
    cases cs with
    | nil =>
      rw [← Option.some.inj h]
      exact .absent
    | cons c cs =>
      obtain ⟨hc, hn⟩ := Option.ite_none_right_eq_some.mp h
      exact .mark hc (Integer.ofChars?_eq_some_iff.mp hn)
  · rintro (_ | ⟨hc, hn⟩)
    · rfl
    · rw [exponent?, if_pos hc, Integer.ofChars?_eq_some_iff.mpr hn]

theorem ExponentPart.head {cs : List Char} {n : Int} (h : ExponentPart cs n) {c : Char}
    (hc : cs.head? = some c) : c = 'e' ∨ c = 'E' := by
  cases h with
  | absent => cases hc
  | mark hmark _ => rwa [← Option.some.inj hc]

theorem ExponentPart.endsDigits {cs : List Char} {n : Int} (h : ExponentPart cs n) :
    EndsDigits cs := by
  intro c hc
  rcases h.head hc with rfl | rfl <;> decide

theorem ExponentPart.splitFraction_eq {cs : List Char} {n : Int} (h : ExponentPart cs n) :
    splitFraction cs = ([], cs) := by
  unfold splitFraction
  split
  · rcases h.head rfl with hc | hc <;> cases hc
  · rfl

theorem Mantissa.unsigned_append {cs : List Char} {coefficient places : Nat}
    (h : Mantissa cs coefficient places) (rest : List Char) : Unsigned (cs ++ rest) := by
  cases h with
  | whole hne hd => exact unsigned_digits_append hne hd rest
  | @point whole fraction _ hw _ =>
    rw [List.append_assoc]
    by_cases hne : whole = []
    · subst hne
      intro c hc
      rw [← Option.some.inj hc]
      decide
    · exact unsigned_digits_append hne hw _

/-- A mantissa is split at its point, and what follows it is left over. -/
theorem Mantissa.split {cs : List Char} {coefficient places : Nat}
    (h : Mantissa cs coefficient places) {rest : List Char} {n : Int} (hrest : ExponentPart rest n) :
    ∃ whole fraction, (cs ++ rest).takeWhile Char.isDigit = whole ∧
      splitFraction ((cs ++ rest).dropWhile Char.isDigit) = (fraction, rest) ∧
      (whole ≠ [] ∨ fraction ≠ []) ∧ coefficient = Nat.ofDigitChars 10 (whole ++ fraction) 0 ∧
      places = fraction.length := by
  cases h with
  | whole hne hd =>
    refine ⟨cs, [], takeWhile_run hd hrest.endsDigits, ?_, Or.inl hne, ?_, rfl⟩
    · rw [dropWhile_run hd hrest.endsDigits, hrest.splitFraction_eq]
    · rw [List.append_nil]
  | @point whole fraction hne hw hf =>
    have hpoint : EndsDigits ('.' :: (fraction ++ rest)) := by
      intro c hc
      rw [← Option.some.inj hc]
      decide
    rw [List.append_assoc, List.cons_append]
    refine ⟨whole, fraction, takeWhile_run hw hpoint, ?_, hne, rfl, rfl⟩
    rw [dropWhile_run hw hpoint, splitFraction,
      takeWhile_run hf hrest.endsDigits, dropWhile_run hf hrest.endsDigits]

/-- What is split at its point is a mantissa with what follows it. -/
theorem exists_mantissa (cs : List Char)
    (h : cs.takeWhile Char.isDigit ≠ [] ∨ (splitFraction (cs.dropWhile Char.isDigit)).1 ≠ []) :
    ∃ mantissa, cs = mantissa ++ (splitFraction (cs.dropWhile Char.isDigit)).2 ∧
      Mantissa mantissa
        (Nat.ofDigitChars 10
          (cs.takeWhile Char.isDigit ++ (splitFraction (cs.dropWhile Char.isDigit)).1) 0)
        (splitFraction (cs.dropWhile Char.isDigit)).1.length := by
  have hcs : cs.takeWhile Char.isDigit ++ cs.dropWhile Char.isDigit = cs :=
    List.takeWhile_append_dropWhile
  have hw := isDigits_takeWhile cs
  generalize cs.takeWhile Char.isDigit = whole at h hcs hw ⊢
  generalize cs.dropWhile Char.isDigit = rest at h hcs ⊢
  unfold splitFraction at h ⊢
  split at h
  · next fraction =>
    refine ⟨_, ?_, .point h hw (isDigits_takeWhile fraction)⟩
    rw [List.append_assoc, List.cons_append, List.takeWhile_append_dropWhile]
    exact hcs.symm
  · refine ⟨whole, hcs.symm, ?_⟩
    rw [List.append_nil]
    exact .whole (h.resolve_right (by simp)) hw

/-- **A text is read as a decimal exactly if it spells it.** -/
theorem ofChars?_eq_some_iff {cs : List Char} {d : Decimal} : ofChars? cs = some d ↔ Spells cs d := by
  constructor
  · intro h
    rcases hsplit : splitSign cs with ⟨negative, body⟩
    obtain ⟨sign, hsign, rfl⟩ := exists_sign hsplit
    simp only [ofChars?, hsplit] at h
    obtain ⟨hempty, h⟩ := Option.ite_none_left_eq_some.mp h
    obtain ⟨exponent, hexponent, rfl⟩ := Option.map_eq_some_iff.mp h
    obtain ⟨mantissa, hbody, hmantissa⟩ := exists_mantissa body (by
      simpa only [Bool.and_eq_true, List.isEmpty_iff, not_and_or] using hempty)
    have hspells := Spells.mk hsign hmantissa (exponent?_eq_some_iff.mp hexponent)
    rwa [← hbody] at hspells
  · rintro ⟨hsign, hmantissa, hexponent⟩
    obtain ⟨whole, fraction, hwhole, hfraction, hne, rfl, rfl⟩ := hmantissa.split hexponent
    simp only [ofChars?, hsign.splitSign_append (hmantissa.unsigned_append _), hwhole, hfraction]
    rw [if_neg (by simpa only [Bool.and_eq_true, List.isEmpty_iff, not_and_or] using hne),
      exponent?_eq_some_iff.mpr hexponent]
    rfl

/-! ## The look of decimals -/

theorem Mantissa.forall_mem {cs : List Char} {coefficient places : Nat}
    (h : Mantissa cs coefficient places) : ∀ c ∈ cs, c.isDigit = true ∨ c = '.' := by
  cases h with
  | whole _ hd => exact fun c hc => Or.inl (hd c hc)
  | point _ hw hf =>
    intro c hc
    simp only [List.mem_append, List.mem_cons] at hc
    rcases hc with hc | hc | hc
    · exact Or.inl (hw c hc)
    · exact Or.inr hc
    · exact Or.inl (hf c hc)

theorem Mantissa.exists_isDigit {cs : List Char} {coefficient places : Nat}
    (h : Mantissa cs coefficient places) : ∃ c ∈ cs, c.isDigit = true := by
  have hfirst : ∀ {ds : List Char}, ds ≠ [] → IsDigits ds → ∃ c ∈ ds, c.isDigit = true :=
    fun hne hd => ⟨_, List.head_mem hne, hd _ (List.head_mem hne)⟩
  cases h with
  | whole hne hd => exact hfirst hne hd
  | point hne hw hf =>
    rcases hne with hne | hne
    · obtain ⟨c, hc, hdigit⟩ := hfirst hne hw
      exact ⟨c, List.mem_append_left _ hc, hdigit⟩
    · obtain ⟨c, hc, hdigit⟩ := hfirst hne hf
      exact ⟨c, List.mem_append_right _ (List.mem_cons_of_mem _ hc), hdigit⟩

end Decimal

namespace Reader

theorem isDecimalChar_of_mem_sign {sign : List Char} {negative : Bool} (h : Sign sign negative)
    {c : Char} (hc : c ∈ sign) : isDecimalChar c = true := by
  cases h with
  | absent => cases hc
  | plus =>
    rw [List.mem_singleton.mp hc]
    decide
  | minus =>
    rw [List.mem_singleton.mp hc]
    decide

theorem isDecimalChar_of_mem_integer {cs : List Char} {n : Int} (h : Integer.Spells cs n) {c : Char}
    (hc : c ∈ cs) : isDecimalChar c = true := by
  obtain ⟨hsign, -, hd⟩ := h
  rcases List.mem_append.mp hc with hc | hc
  · exact isDecimalChar_of_mem_sign hsign hc
  · simp [isDecimalChar, hd c hc]

theorem isDecimalChar_of_mem_mantissa {cs : List Char} {coefficient places : Nat}
    (h : Decimal.Mantissa cs coefficient places) {c : Char} (hc : c ∈ cs) :
    isDecimalChar c = true := by
  rcases h.forall_mem c hc with hdigit | rfl
  · simp [isDecimalChar, hdigit]
  · decide

theorem isDecimalChar_of_mem_exponentPart {cs : List Char} {n : Int}
    (h : Decimal.ExponentPart cs n) {c : Char} (hc : c ∈ cs) : isDecimalChar c = true := by
  cases h with
  | absent => cases hc
  | mark hmark hn =>
    rcases List.mem_cons.mp hc with rfl | hc
    · rcases hmark with rfl | rfl <;> decide
    · exact isDecimalChar_of_mem_integer hn hc

theorem isDecimalChar_of_mem_decimal {cs : List Char} {d : Decimal} (h : Decimal.Spells cs d)
    {c : Char} (hc : c ∈ cs) : isDecimalChar c = true := by
  obtain ⟨hsign, hmantissa, hexponent⟩ := h
  rw [List.mem_append, List.mem_append] at hc
  rcases hc with hc | hc | hc
  · exact isDecimalChar_of_mem_sign hsign hc
  · exact isDecimalChar_of_mem_mantissa hmantissa hc
  · exact isDecimalChar_of_mem_exponentPart hexponent hc

/-- Every decimal looks like one. -/
theorem looksDecimal_of_spells {cs : List Char} {d : Decimal} (h : Decimal.Spells cs d) :
    looksDecimal cs = true := by
  rcases h with @⟨sign, mantissa, exponentPart, _, _, _, _, hsign, hmantissa, hexponent⟩
  obtain ⟨digit, hdigit, hisDigit⟩ := hmantissa.exists_isDigit
  obtain ⟨first, rest, rfl⟩ := List.exists_cons_of_ne_nil (List.ne_nil_of_mem hdigit)
  have hfirst := hmantissa.forall_mem first List.mem_cons_self
  unfold looksDecimal
  rw [hsign.splitSign_append (hmantissa.unsigned_append _)]
  simp only [Bool.and_eq_true]
  refine ⟨⟨?_, ?_⟩, ?_⟩
  · exact List.any_eq_true.mpr ⟨digit, List.mem_append_left _ hdigit, hisDigit⟩
  · refine List.all_eq_true.mpr fun c hc => ?_
    rcases List.mem_append.mp hc with hc | hc
    · exact isDecimalChar_of_mem_mantissa hmantissa hc
    · exact isDecimalChar_of_mem_exponentPart hexponent hc
  · simpa using hfirst

theorem toLower_of_isDigit {c : Char} (h : c.isDigit = true) : c.toLower = c := by
  have hle : c.val ≤ '9'.val := by
    simp only [Char.isDigit, Bool.and_eq_true, decide_eq_true_eq] at h
    exact h.2
  unfold Char.toLower
  refine dif_neg fun hupper => ?_
  exact absurd (UInt32.le_trans hupper.1 hle) (by decide)

/-- The names of special numbers have no digits. -/
theorem special?_of_any_isDigit {cs : List Char} (h : cs.any Char.isDigit = true) :
    Binary64.special? (cs.map Char.toLower) = none := by
  obtain ⟨c, hc, hdigit⟩ := List.any_eq_true.mp h
  have hmem : c ∈ cs.map Char.toLower := by
    have hlower := List.mem_map_of_mem (f := Char.toLower) hc
    rwa [toLower_of_isDigit hdigit] at hlower
  have hletters : ∀ name : List Char, name.any Char.isDigit = false → cs.map Char.toLower ≠ name := by
    rintro name hname rfl
    rw [List.any_eq_true.mpr ⟨c, hmem, hdigit⟩] at hname
    cases hname
  unfold Binary64.special?
  split
  · next hname => exact absurd hname (hletters _ (by decide))
  · next hname => exact absurd hname (hletters _ (by decide))
  · next hname => exact absurd hname (hletters _ (by decide))
  · rfl

/-- **What looks like a decimal is read as one.** Looking first leaves out the names of special
numbers and nothing else. -/
theorem decimal?_eq (cs : List Char) :
    decimal? cs = (Decimal.ofChars? cs).map Binary64.ofDecimal := by
  unfold decimal?
  split
  · next h =>
    simp only [looksDecimal, Bool.and_eq_true] at h
    simp only [Binary64.ofChars?, special?_of_any_isDigit h.1.1]
  · next h =>
    cases hd : Decimal.ofChars? cs with
    | none => rfl
    | some d => exact absurd (looksDecimal_of_spells (Decimal.ofChars?_eq_some_iff.mp hd)) h

end Reader

end HostScript
