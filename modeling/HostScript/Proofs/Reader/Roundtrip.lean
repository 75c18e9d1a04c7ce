import HostScript.Expr.Printer
import HostScript.Proofs.Number.Numerals
import HostScript.Proofs.Reader.Recognition

/-!
# Reading what is written

The forms of a script that are written one on a line are a script again, and `Expr.reread` says what
is read from it (`readForms_script`). Three things come back as something else: an empty list as the
symbol `Nil`, an infinity as a symbol, and an unprintable character in a text as the escape that is
written for it. What holds none of these is `Lossless` and comes back as it was.

The proof needs to know of a form only that it was read: such a form is built from words, texts and
lists (`Readable`). What is written for it is a form by the grammar wherever no plain character
follows (`Writes`), and the blanks and parentheses in a list see to that.
-/

namespace HostScript

namespace Expr

/-! ## What comes back -/

mutual

/-- What is read for an expression as it is written. -/
def reread : Expr → Expr
  | .dec (.infinite negative) => .symbol (if negative then "-inf" else "inf")
  | .text content => .text (String.ofList (Text.reread content.toList))
  | .list [] => .symbol "Nil"
  | .list (head :: tail) => .list (reread head :: rereadAll tail)
  | e => e

/-- What is read for some expressions, one by one. -/
def rereadAll : List Expr → List Expr
  | [] => []
  | e :: es => reread e :: rereadAll es

end

theorem rereadAll_eq_map (es : List Expr) : rereadAll es = es.map reread := by
  induction es with
  | nil => rw [rereadAll, List.map_nil]
  | cons e es ih => rw [rereadAll, ih, List.map_cons]

theorem reread_int (value : Int64) : reread (.int value) = .int value := by
  rw [reread] <;> simp

theorem reread_symbol (name : String) : reread (.symbol name) = .symbol name := by
  rw [reread] <;> simp

theorem reread_dec {value : Binary64} (h : ∀ negative, value ≠ .infinite negative) :
    reread (.dec value) = .dec value := by
  rw [reread] <;> simp [h]

theorem reread_list {items : List Expr} (h : items ≠ []) :
    reread (.list items) = .list (items.map reread) := by
  obtain ⟨e, es, rfl⟩ := List.exists_cons_of_ne_nil h
  rw [reread, rereadAll_eq_map, List.map_cons]

/-- An expression that comes back as it was: there is no empty list in it, no infinity, and no text
with an unprintable character. -/
inductive Lossless : Expr → Prop
  | int (value : Int64) : Lossless (.int value)
  | dec {value : Binary64} : (∀ negative, value ≠ .infinite negative) → Lossless (.dec value)
  | symbol (name : String) : Lossless (.symbol name)
  | text {content : String} :
    (∀ c ∈ content.toList, Text.isUnprintable c = false) → Lossless (.text content)
  | list {items : List Expr} : items ≠ [] → (∀ e ∈ items, Lossless e) → Lossless (.list items)

theorem reread_eq_self {e : Expr} (h : e.Lossless) : e.reread = e := by
  induction h with
  | int value => exact reread_int value
  | dec h => exact reread_dec h
  | symbol name => exact reread_symbol name
  | text h => rw [reread, Text.reread_eq_self h, String.ofList_toList]
  | list hne _ ih => rw [reread_list hne, List.map_congr_left ih, List.map_id']

/-- Nothing comes back deeper than it was. -/
theorem nesting_reread_le (e : Expr) : e.reread.nesting ≤ e.nesting := by
  induction e with
  | int value => simp [reread]
  | dec value => cases value <;> simp [reread, nesting]
  | symbol name => simp [reread]
  | text content => simp [reread, nesting]
  | list items ih =>
    by_cases hne : items = []
    · simp [hne, reread, nesting]
    · rw [reread_list hne, nesting_list, nesting_list, Nat.add_le_add_iff_right,
        nestingAll_le_iff]
      intro f hf
      obtain ⟨e, he, rfl⟩ := List.mem_map.mp hf
      exact Nat.le_trans (ih e he) (nestingAll_le_iff.mp (Nat.le_refl _) e he)

/-! ## How lists are written -/

theorem tailChars_eq_flatMap (es : List Expr) :
    tailChars es = es.flatMap fun e => ' ' :: e.chars := by
  induction es with
  | nil => rw [tailChars, List.flatMap_nil]
  | cons e es ih => rw [tailChars, ih, List.flatMap_cons]

/-- A list that is not empty is either a quotation, written with a quote mark, or it is written in
parentheses with a space before each item but the first. -/
theorem chars_list_cons (head : Expr) (tail : List Expr) :
    (∃ operand, head :: tail = [.symbol "quote", operand] ∧
      chars (.list (head :: tail)) = '\'' :: operand.chars) ∨
    chars (.list (head :: tail)) =
      '(' :: head.chars ++ tail.flatMap (fun e => ' ' :: e.chars) ++ [')'] := by
  by_cases hpair : ∃ name operand, head = .symbol name ∧ tail = [operand]
  · obtain ⟨name, operand, rfl, rfl⟩ := hpair
    by_cases hname : name = "quote"
    · exact Or.inl ⟨operand, by rw [hname], by rw [chars, if_pos hname]⟩
    · right
      have hchars : chars (.list [.symbol name, operand]) =
          '(' :: name.toList ++ ' ' :: operand.chars ++ [')'] := by
        rw [chars, if_neg hname]
      rw [hchars, chars]
      simp
  · right
    rw [chars, tailChars_eq_flatMap]
    intro name operand hhead htail
    exact hpair ⟨name, operand, hhead, htail⟩

end Expr

namespace Reader

open HostScript.Expr

/-! ## What the reader gives -/

/-- The expressions that can be read. -/
inductive Readable : Expr → Prop
  | word (w : Word) : Readable (atom w.chars)
  | text (content : String) : Readable (.text content)
  | list {items : List Expr} : (∀ e ∈ items, Readable e) → Readable (.list items)

/-- A symbol's name is a word of its own. -/
theorem readable_quote : Readable (.symbol "quote") :=
  .word ⟨['q', 'u', 'o', 't', 'e'], by simp, forall_isPlain (by decide)⟩

mutual

theorem Form.readable : ∀ {ts : List Token} {e : Expr}, Form ts e → Readable e
  | _, _, .word w he => he.atom_eq ▸ .word w
  | _, _, .text content => .text _
  | _, _, @Form.list ts items h => .list h.readable
  | _, _, @Form.quotation ts e h => .list fun f hf => by
    rcases List.mem_cons.mp hf with hf | hf
    · rw [hf]
      exact readable_quote
    · rw [List.mem_singleton.mp hf]
      exact h.readable

theorem Forms.readable : ∀ {ts : List Token} {es : List Expr}, Forms ts es →
    ∀ e ∈ es, Readable e
  | _, _, .nil, _, he => absurd he List.not_mem_nil
  | _, _, @Forms.cons _ _ e _ h hs, f, hf => by
    rcases List.mem_cons.mp hf with hf | hf
    · rw [hf]
      exact h.readable
    · exact hs.readable f hf

end

/-- A word is an integer, a decimal that is a number, or the symbol it is the name of. -/
theorem atom_cases (cs : List Char) :
    (∃ value, atom cs = .int value) ∨ (∃ value, value ≠ .nan ∧ atom cs = .dec value) ∨
      atom cs = .symbol (String.ofList cs) := by
  unfold atom
  split
  · exact Or.inl ⟨_, rfl⟩
  · rw [decimal?_eq]
    split
    · next value hvalue =>
      obtain ⟨d, -, rfl⟩ := Option.map_eq_some_iff.mp hvalue
      exact Or.inr (Or.inl ⟨_, Binary64.ofDecimal_ne_nan d, rfl⟩)
    · exact Or.inr (Or.inr rfl)

/-! ## Written forms -/

theorem endsWord_cons {c : Char} (h : ¬ IsPlain c) (cs : List Char) : EndsWord (c :: cs) := by
  intro d hd
  rw [← Option.some.inj hd]
  exact h

theorem not_isPlain_of_isBlank {c : Char} (h : Text.isBlank c = true) : ¬ IsPlain c := by
  rintro ⟨hblank, -⟩
  rw [h] at hblank
  cases hblank

/-- `Writes cs e` says that `cs` is the form `e` wherever no word goes on after it. -/
def Writes (cs : List Char) (e : Expr) : Prop :=
  ∃ ts, Form ts e ∧
    ∀ rest us, EndsWord rest → Lexes rest us → Lexes (cs ++ rest) (ts ++ us)

theorem Writes.word (w : Word) : Writes w.chars (atom w.chars) :=
  ⟨[.word w], .atom w, fun _ _ hrest h => .word w hrest h⟩

theorem Writes.text {body content : List Char} (hbody : Text.Literal body content) :
    Writes ('"' :: body ++ ['"']) (.text (String.ofList content)) := by
  refine ⟨[.text content], .text content, fun rest us _ h => ?_⟩
  rw [List.append_assoc]
  exact .text hbody h

theorem Writes.quotation {cs : List Char} {e : Expr} (h : Writes cs e) :
    Writes ('\'' :: cs) e.quotation := by
  obtain ⟨ts, hform, hlex⟩ := h
  exact ⟨_, .quotation hform, fun rest us hrest h => .quoteMark (hlex rest us hrest h)⟩

/-- Several forms are written with a blank before each. -/
theorem exists_forms_of_writes {blank : Char} (hblank : Text.isBlank blank = true)
    {chars : Expr → List Char} {back : Expr → Expr} {es : List Expr}
    (h : ∀ e ∈ es, Writes (chars e) (back e)) :
    ∃ ts, Forms ts (es.map back) ∧ ∀ rest us, EndsWord rest → Lexes rest us →
      EndsWord (es.flatMap (fun e => blank :: chars e) ++ rest) ∧
        Lexes (es.flatMap (fun e => blank :: chars e) ++ rest) (ts ++ us) := by
  induction es with
  | nil => exact ⟨[], .nil, fun rest us hrest h => ⟨hrest, h⟩⟩
  | cons e es ih =>
    obtain ⟨ts, hform, hlex⟩ := h e List.mem_cons_self
    obtain ⟨tss, hforms, hlexes⟩ := ih fun f hf => h f (List.mem_cons_of_mem e hf)
    refine ⟨ts ++ tss, .cons hform hforms, fun rest us hrest h => ?_⟩
    obtain ⟨hends, htail⟩ := hlexes rest us hrest h
    -- The blank ends a word before it, as what follows the form here does.
    rw [List.flatMap_cons, List.append_assoc, List.append_assoc, List.cons_append]
    exact ⟨endsWord_cons (not_isPlain_of_isBlank hblank) _, .blank hblank (hlex _ _ hends htail)⟩

/-- One form and then several, with a blank before each of these. -/
theorem exists_forms_of_writes_cons {blank : Char} (hblank : Text.isBlank blank = true)
    {chars : Expr → List Char} {back : Expr → Expr} {e : Expr} {es : List Expr}
    (h : ∀ f ∈ e :: es, Writes (chars f) (back f)) :
    ∃ ts, Forms ts ((e :: es).map back) ∧ ∀ rest us, EndsWord rest → Lexes rest us →
      Lexes (chars e ++ es.flatMap (fun e => blank :: chars e) ++ rest) (ts ++ us) := by
  obtain ⟨ts, hform, hlex⟩ := h e List.mem_cons_self
  obtain ⟨tss, hforms, hlexes⟩ :=
    exists_forms_of_writes hblank fun f hf => h f (List.mem_cons_of_mem e hf)
  refine ⟨ts ++ tss, .cons hform hforms, fun rest us hrest h => ?_⟩
  obtain ⟨hends, htail⟩ := hlexes rest us hrest h
  rw [List.append_assoc, List.append_assoc]
  exact hlex _ _ hends htail

/-! ## Written numbers -/

theorem isPlain_of_isDigit {c : Char} (h : c.isDigit = true) : IsPlain c := by
  have hall : ∀ k : Fin 10, IsPlain (Char.ofNat (48 + k)) := by decide
  have hbounds : 48 ≤ c.toNat ∧ c.toNat ≤ 57 := by
    simp only [Char.isDigit, Bool.and_eq_true, decide_eq_true_eq] at h
    exact ⟨UInt32.le_iff_toNat_le.mp h.1, UInt32.le_iff_toNat_le.mp h.2⟩
  have hc := hall ⟨c.toNat - 48, by omega⟩
  simp only at hc
  rw [Nat.add_sub_cancel' hbounds.1, Char.ofNat_toNat] at hc
  exact hc

theorem isPlain_of_isDecimalChar {c : Char} (h : isDecimalChar c = true) : IsPlain c := by
  simp only [isDecimalChar, Bool.or_eq_true, decide_eq_true_eq] at h
  rcases h with ((((h | rfl) | rfl) | rfl) | rfl) | rfl
  · exact isPlain_of_isDigit h
  all_goals decide

theorem isPlain_of_mem_intChars {n : Int} {c : Char} (h : c ∈ Integer.chars n) : IsPlain c :=
  isPlain_of_isDecimalChar (isDecimalChar_of_mem_integer (Integer.spells_chars n) h)

theorem isPlain_of_mem_decChars {value : Binary64} {c : Char} (h : c ∈ value.chars) :
    IsPlain c := by
  cases value with
  | nan => exact forall_isPlain (by decide) c h
  | infinite negative =>
    cases negative with
    | false => exact forall_isPlain (by decide) c h
    | true => exact forall_isPlain (by decide) c h
  | finite negative rank =>
    obtain ⟨whole, fraction, heq, hw⟩ := Binary64.exists_chars_eq negative rank
    rw [heq] at h
    exact isPlain_of_isDecimalChar (isDecimalChar_of_mem_decimal
      (Decimal.spells_point negative hw.whole_ne_nil hw.whole_digits hw.fraction_digits) h)

theorem Writes.int (value : Int64) : Writes (Integer.chars value.toInt) (.int value) := by
  have hne : Integer.chars value.toInt ≠ [] := by
    cases value.toInt with
    | ofNat n => exact natChars_ne_nil n
    | negSucc n => simp [Integer.chars]
  have h := Writes.word ⟨_, hne, fun _ => isPlain_of_mem_intChars⟩
  rw [atom_intChars] at h
  exact h

theorem Writes.finite (negative : Bool) (rank : Fin Binary64.rankLimit) :
    Writes (Binary64.finite negative rank).chars (.dec (.finite negative rank)) := by
  obtain ⟨whole, fraction, heq, -⟩ := Binary64.exists_chars_eq negative rank
  have hne : (Binary64.finite negative rank).chars ≠ [] := by simp [heq]
  have h := Writes.word ⟨_, hne, fun _ => isPlain_of_mem_decChars⟩
  rw [Binary64.atom_finiteChars] at h
  exact h

theorem Writes.infinite (negative : Bool) :
    Writes (Binary64.infinite negative).chars (.symbol (if negative then "-inf" else "inf")) := by
  cases negative with
  | false => exact .word ⟨['i', 'n', 'f'], by simp, forall_isPlain (by decide)⟩
  | true => exact .word ⟨['-', 'i', 'n', 'f'], by simp, forall_isPlain (by decide)⟩

/-! ## Written expressions -/

/-- **What is written for an expression that was read is the form that `reread` says.** -/
theorem Readable.writes {e : Expr} (h : Readable e) : Writes e.chars e.reread := by
  induction h with
  | word w =>
    rcases atom_cases w.chars with ⟨value, hatom⟩ | ⟨value, hnan, hatom⟩ | hatom
    · rw [hatom, chars, reread_int]
      exact .int value
    · cases value with
      | nan => exact absurd rfl hnan
      | infinite negative =>
        -- A word with too large a number is an infinity, and is written as the name of a symbol.
        rw [hatom, chars, reread]
        exact .infinite negative
      | finite negative rank =>
        rw [hatom, chars, reread_dec (by simp)]
        exact .finite negative rank
    · have hw := Writes.word w
      rw [hatom] at hw ⊢
      rw [chars, reread_symbol, String.toList_ofList]
      exact hw
  | text content =>
    rw [chars, reread]
    exact .text (Text.literal_escape content.toList)
  | @list items hitems ih =>
    cases items with
    | nil =>
      rw [chars, reread]
      exact .word ⟨['N', 'i', 'l'], by simp, forall_isPlain (by decide)⟩
    | cons head tail =>
      rw [reread_list (by simp)]
      rcases chars_list_cons head tail with ⟨operand, hpair, hchars⟩ | hchars
      -- The tokens of the quotation are other ones, but they are tokens of the same list.
      · have hoperand : Writes operand.chars operand.reread := ih operand (by simp [hpair])
        rw [hchars, hpair, List.map_cons, List.map_singleton, reread_symbol]
        exact hoperand.quotation
      · have hblank : Text.isBlank ' ' = true := by decide
        obtain ⟨ts, hforms, hlex⟩ := exists_forms_of_writes_cons hblank ih
        refine ⟨_, .list hforms, fun rest us _ h => ?_⟩
        have hclose : EndsWord (')' :: rest) := endsWord_cons (by decide) rest
        have hlist := Lexes.openList (hlex _ _ hclose (.closeList h))
        simpa [hchars] using hlist

/-! ## Written scripts -/

/-- A script that holds the forms one on a line. -/
def script (forms : List Expr) : String := String.intercalate "\n" (forms.map render)

theorem intercalate_map_chars (c : Char) (e : Expr) (es : List Expr) :
    List.intercalate [c] ((e :: es).map chars) = e.chars ++ es.flatMap fun f => c :: f.chars := by
  induction es generalizing e with
  | nil => simp
  | cons f es ih =>
    rw [List.map_cons, List.map_cons, List.intercalate_cons_cons, ← List.map_cons, ih]
    simp

theorem toList_script (forms : List Expr) :
    (script forms).toList = List.intercalate ['\n'] (forms.map chars) := by
  rw [script, String.toList_intercalate, List.map_map]
  have hchars : ∀ e ∈ forms, (String.toList ∘ render) e = e.chars := fun e _ =>
    String.toList_ofList
  rw [List.map_congr_left hchars]
  rfl

/-- The forms that were read, one on a line, are by the grammar the forms that `reread` says. -/
theorem reads_script {forms : List Expr} (h : ∀ e ∈ forms, Readable e) :
    Reads (script forms).toList (forms.map reread) := by
  cases forms with
  | nil => exact ⟨[], .nil, .nil⟩
  | cons e es =>
    have hblank : Text.isBlank '\n' = true := by decide
    obtain ⟨ts, hforms, hlex⟩ :=
      exists_forms_of_writes_cons hblank fun f hf => (h f hf).writes
    have hend : EndsWord [] := fun c hc => by cases hc
    have hscript := hlex [] [] hend .nil
    rw [List.append_nil, List.append_nil, ← intercalate_map_chars, ← toList_script] at hscript
    exact ⟨ts, hscript, hforms⟩

/-- **The forms of a script, written one on a line, are read again: as `reread` says, and where
nothing in them is lost, as they were.** -/
theorem readForms_script {source : String} {forms : List Expr}
    (h : readForms source = .ok forms) :
    readForms (script forms) = .ok (forms.map reread) ∧
      ((∀ f ∈ forms, f.Lossless) → readForms (script forms) = .ok forms) := by
  obtain ⟨⟨ts, -, hforms⟩, hnesting⟩ := readForms_eq_ok_iff.mp h
  have hagain : readForms (script forms) = .ok (forms.map reread) := by
    refine readForms_eq_ok_iff.mpr ⟨reads_script hforms.readable, fun f hf => ?_⟩
    obtain ⟨e, he, rfl⟩ := List.mem_map.mp hf
    exact Nat.le_trans (nesting_reread_le e) (hnesting e he)
  refine ⟨hagain, fun hlossless => ?_⟩
  rw [hagain, List.map_congr_left fun f hf => reread_eq_self (hlossless f hf), List.map_id']

/-- The script `(x 1)`. -/
theorem readForms_script_call :
    let forms := [Expr.list [.symbol "x", .int 1]]
    readForms (String.ofList ['(', 'x', ' ', '1', ')']) = .ok forms ∧
      (∀ f ∈ forms, f.Lossless) ∧ readForms (script forms) = .ok (forms.map reread) ∧
      readForms (script forms) = .ok forms := by
  have hread : readForms (String.ofList ['(', 'x', ' ', '1', ')']) =
      .ok [Expr.list [.symbol "x", .int 1]] := by
    rw [readForms, String.toList_ofList]
    rfl
  have hlossless : ∀ f ∈ [Expr.list [.symbol "x", .int 1]], f.Lossless := by
    intro f hf
    rw [List.mem_singleton.mp hf]
    refine .list (by simp) fun e he => ?_
    simp only [List.mem_cons, List.not_mem_nil, or_false] at he
    rcases he with rfl | rfl
    · exact .symbol "x"
    · exact .int 1
  obtain ⟨hreread, hsame⟩ := readForms_script hread
  exact ⟨hread, hlossless, hreread, hsame hlossless⟩

end Reader

end HostScript
