import HostScript.Proofs.Reader.Grammar
import HostScript.Reader.Basic

/-!
# Reading token by token

The reader takes characters. Between two tokens its state is a stack and some finished forms, and
all that a token does is a step from one such state to the next (`State.take`).

* `forms?_of_lexes`: on a script with the tokens `ts` the reader does what `take` does on `ts`.
* `lexes_or_forms?_eq_none`: a script without tokens, which is one with a text that is not closed,
  is refused in every state.
-/

namespace HostScript.Reader.State

/-! ## The forms after the rest of a script -/

/-- The forms of a script of which the given characters are left, if it is not refused. -/
def forms? (s : State) : List Char → Option (List Expr)
  | [] => s.done.toOption
  | c :: rest =>
    match s.step c with
    | .ok s => s.forms? rest
    | .error _ => none

/-- The position at which the characters stand decides only about errors. -/
theorem forms?_eq_run (s : State) (position : Nat) (cs : List Char) :
    s.forms? cs =
      match s.run position cs with
      | .ok s => s.done.toOption
      | .error _ => none := by
  induction cs generalizing s position with
  | nil => rfl
  | cons c rest ih =>
    simp only [forms?, run]
    cases s.step c with
    | error fault => rfl
    | ok s => exact ih s _

end State

theorem readForms_eq_ok_iff_forms? {source : String} {forms : List Expr} :
    readForms source = .ok forms ↔ ({} : State).forms? source.toList = some forms := by
  rw [State.forms?_eq_run _ 0, readForms, formsOfChars]
  cases ({} : State).run 0 source.toList with
  | error e => simp
  | ok s => cases h : s.done <;> simp [h, Except.toOption]

namespace State

/-! ## Tokens -/

/-- Whether one more form may be open. -/
def HasRoom (s : State) : Prop := s.stack.length < depthLimit

instance (s : State) : Decidable s.HasRoom := inferInstanceAs (Decidable (_ < _))

/-- Takes a token, from a state between two tokens. -/
def take (s : State) : Token → Option State
  | .openList => if s.HasRoom then some { s with stack := .list [] :: s.stack } else none
  | .closeList => s.close.toOption
  | .quoteMark => if s.HasRoom then some { s with stack := .quotation :: s.stack } else none
  | .text content => if s.HasRoom then some (s.finish (.text (String.ofList content))) else none
  | .word w => if s.HasRoom then some (s.finish (atom w.chars)) else none

/-- The forms of a script of which the given tokens are left. -/
def formsOfTokens? (s : State) : List Token → Option (List Expr)
  | [] => s.closed.toOption
  | t :: ts => (s.take t).bind (·.formsOfTokens? ts)

theorem deliver_mode (forms : List Expr) (stack : List Frame) (e : Expr) :
    (deliver forms stack e).mode = .between := by
  induction stack generalizing e with
  | nil => rfl
  | cons frame stack ih =>
    cases frame with
    | list items => rfl
    | quotation => exact ih e.quotation

@[simp] theorem finish_mode (s : State) (e : Expr) : (s.finish e).mode = .between :=
  deliver_mode s.forms s.stack e

theorem close_mode {s t : State} (h : s.close = .ok t) : t.mode = .between := by
  unfold close at h
  split at h
  · rw [← Except.ok.inj h]; exact deliver_mode _ _ _
  · split at h <;> simp at h
  · simp at h

theorem take_mode {s t : State} {token : Token} (hs : s.mode = .between)
    (h : s.take token = some t) : t.mode = .between := by
  cases token with
  | closeList =>
    cases hc : s.close with
    | error fault => simp [take, hc, Except.toOption] at h
    | ok u =>
      simp only [take, hc, Except.toOption, Option.some.injEq] at h
      exact h ▸ close_mode hc
  | openList | quoteMark =>
    simp only [take, Option.ite_none_right_eq_some, Option.some.injEq] at h
    rw [← h.2]; exact hs
  | text | word =>
    simp only [take, Option.ite_none_right_eq_some, Option.some.injEq] at h
    rw [← h.2]; exact finish_mode _ _

/-! ## Separators -/

/-- Between two tokens the mode says nothing. -/
theorem eq_between {s : State} (hs : s.mode = .between) :
    ({ s with mode := .between } : State) = s := by
  rw [← hs]

theorem forms?_blank {s : State} (hs : s.mode = .between) {c : Char} (hc : Text.isBlank c = true)
    (cs : List Char) : s.forms? (c :: cs) = s.forms? cs := by
  simp only [forms?, step, hs, stepBetween, hc, if_true, eq_between hs]

theorem forms?_semicolon {s : State} (hs : s.mode = .between) (cs : List Char) :
    s.forms? (';' :: cs) = ({ s with mode := .comment } : State).forms? cs := by
  have hc : Text.isBlank ';' = false := by decide
  simp [forms?, step, hs, stepBetween, hc]

/-- A comment that runs on up to the end of the script is left out. -/
theorem forms?_lastComment (s : State) {body : List Char} (hb : '\n' ∉ body) :
    ({ s with mode := .comment } : State).forms? body = s.closed.toOption := by
  induction body with
  | nil => rfl
  | cons c body ih =>
    rw [List.mem_cons, not_or] at hb
    simp only [forms?, step, if_neg (Ne.symm hb.1)]
    exact ih hb.2

theorem forms?_comment {s : State} (hs : s.mode = .between) {body : List Char}
    (hb : '\n' ∉ body) (cs : List Char) :
    ({ s with mode := .comment } : State).forms? (body ++ '\n' :: cs) = s.forms? cs := by
  induction body with
  | nil => simp only [List.nil_append, forms?, step, if_true, eq_between hs]
  | cons c body ih =>
    rw [List.mem_cons, not_or] at hb
    simp only [List.cons_append, forms?, step, if_neg (Ne.symm hb.1)]
    exact ih hb.2

/-! ## Parentheses and quote marks -/

/-- The first character of a form is taken if there is room for one more form. -/
theorem forms?_openForm {s t : State} (hs : s.mode = .between) {c : Char}
    (hblank : Text.isBlank c = false) (hc : c ≠ ';' ∧ c ≠ ')')
    (ht : s.HasRoom → s.openForm c = .ok t) (cs : List Char) :
    s.forms? (c :: cs) = if s.HasRoom then t.forms? cs else none := by
  have hstep : s.step c = s.openForm c := by simp [step, hs, stepBetween, hblank, hc]
  rw [forms?, hstep]
  by_cases hr : s.HasRoom
  · rw [ht hr, if_pos hr]
  · have hfull : s.openForm c = .error .tooDeep := if_pos (Nat.not_lt.mp hr)
    rw [hfull, if_neg hr]

theorem forms?_openList {s : State} (hs : s.mode = .between) (cs : List Char) :
    s.forms? ('(' :: cs) = (s.take .openList).bind (·.forms? cs) := by
  have ht : s.HasRoom → s.openForm '(' = .ok { s with stack := .list [] :: s.stack } := fun h => by
    simp [openForm, Nat.not_le.mpr h, hs]
  rw [forms?_openForm hs (by decide) (by decide) ht, take]
  split <;> rfl

theorem forms?_quoteMark {s : State} (hs : s.mode = .between) (cs : List Char) :
    s.forms? ('\'' :: cs) = (s.take .quoteMark).bind (·.forms? cs) := by
  have ht : s.HasRoom → s.openForm '\'' = .ok { s with stack := .quotation :: s.stack } := by
    intro h
    simp [openForm, Nat.not_le.mpr h, hs]
  rw [forms?_openForm hs (by decide) (by decide) ht, take]
  split <;> rfl

theorem forms?_closeList {s : State} (hs : s.mode = .between) (cs : List Char) :
    s.forms? (')' :: cs) = (s.take .closeList).bind (·.forms? cs) := by
  have hc : Text.isBlank ')' = false := by decide
  cases h : s.close <;> simp [forms?, step, hs, stepBetween, hc, take, h, Except.toOption]

/-! ## Texts -/

/-- A double quote opens a text if there is room for one more form. -/
theorem forms?_doubleQuote {s : State} (hs : s.mode = .between) (cs : List Char) :
    s.forms? ('"' :: cs) =
      if s.HasRoom then ({ s with mode := .text [] } : State).forms? cs else none := by
  have ht : s.HasRoom → s.openForm '"' = .ok { s with mode := .text [] } := fun h => by
    simp [openForm, Nat.not_le.mpr h]
  exact forms?_openForm hs (by decide) (by decide) ht cs

/-- **Inside a text the reader follows the literal up to the double quote that closes it.** -/
theorem forms?_literal (s : State) {body content : List Char} (h : Text.Literal body content)
    (read cs : List Char) :
    ({ s with mode := .text read } : State).forms? (body ++ '"' :: cs) =
      (s.finish (.text (String.ofList (read.reverse ++ content)))).forms? cs := by
  induction h generalizing read with
  | nil => simp [forms?, step, finish]
  | plain hq hb _ ih =>
    simp only [List.cons_append, forms?, step, if_neg hq, if_neg hb]
    rw [ih]
    simp
  | escape he _ ih =>
    simp only [List.cons_append, forms?, step, Char.reduceEq, if_true, if_false]
    rw [ih, he.eq_unescape]
    simp [Text.unescape_reverse]

theorem forms?_text {s : State} (hs : s.mode = .between) {body content : List Char}
    (h : Text.Literal body content) (cs : List Char) :
    s.forms? ('"' :: body ++ '"' :: cs) = (s.take (.text content)).bind (·.forms? cs) := by
  rw [List.cons_append, forms?_doubleQuote hs, forms?_literal s h]
  by_cases hr : s.HasRoom <;> simp [take, hr]

/-- Inside a text either a literal comes to its end, or the script is refused. -/
theorem literal_or_forms?_eq_none : ∀ cs : List Char,
    (∃ body content rest, cs = body ++ '"' :: rest ∧ Text.Literal body content) ∨
      ∀ (s : State) (read : List Char), ({ s with mode := .text read } : State).forms? cs = none
  | [] => Or.inr fun s read => rfl
  | [c] => by
    by_cases hq : c = '"'
    · exact Or.inl ⟨[], [], [], by rw [hq]; rfl, .nil⟩
    · refine Or.inr fun s read => ?_
      by_cases hb : c = '\\' <;> simp [forms?, step, hq, hb, done, Except.toOption]
  | c :: d :: cs => by
    by_cases hq : c = '"'
    · exact Or.inl ⟨[], [], d :: cs, by rw [hq]; rfl, .nil⟩
    by_cases hb : c = '\\'
    · -- the character after a backslash never closes the text
      rcases literal_or_forms?_eq_none cs with ⟨body, content, rest, rfl, h⟩ | h
      · rw [hb]
        exact Or.inl ⟨_, _, rest, rfl, Text.Literal.escape (Text.escape_unescape d) h⟩
      · refine Or.inr fun s read => ?_
        simp only [hb, forms?, step, Char.reduceEq, if_true, if_false]
        exact h s _
    · rcases literal_or_forms?_eq_none (d :: cs) with ⟨body, content, rest, heq, h⟩ | h
      · exact Or.inl ⟨c :: body, c :: content, rest, by rw [heq]; rfl, .plain hq hb h⟩
      · refine Or.inr fun s read => ?_
        rw [forms?]
        simp only [step, if_neg hq, if_neg hb]
        exact h s _

/-! ## Words -/

/-- Where a word ends, its form is finished before the next character is taken. -/
theorem forms?_wordEnd (s : State) (read : List Char) {cs : List Char}
    (h : EndsWord cs) :
    ({ s with mode := .atom read } : State).forms? cs =
      (s.finish (atom read.reverse)).forms? cs := by
  cases cs with
  | nil => simp [forms?, done, finish, deliver_mode]
  | cons c cs =>
    have hc : isDelimiter c = true := by
      rw [← Bool.not_eq_false, ← isPlain_iff]
      exact h c rfl
    simp [forms?, step, hc, finish, deliver_mode]

theorem forms?_wordRest (s : State) (read : List Char) {ws cs : List Char}
    (hw : ∀ c ∈ ws, IsPlain c) (h : EndsWord cs) :
    ({ s with mode := .atom read } : State).forms? (ws ++ cs) =
      (s.finish (atom (read.reverse ++ ws))).forms? cs := by
  induction ws generalizing read with
  | nil => simpa using forms?_wordEnd s read h
  | cons c ws ih =>
    have hc : isDelimiter c = false := isPlain_iff.mp (hw c List.mem_cons_self)
    simp only [List.cons_append, forms?, step, hc, Bool.false_eq_true, if_false]
    rw [ih (c :: read) (fun d hd => hw d (List.mem_cons_of_mem c hd))]
    simp

theorem forms?_word {s : State} (hs : s.mode = .between) (w : Word) {cs : List Char}
    (h : EndsWord cs) :
    s.forms? (w.chars ++ cs) = (s.take (.word w)).bind (·.forms? cs) := by
  obtain ⟨chars, hne, hplain⟩ := w
  obtain ⟨c, ws, rfl⟩ := List.exists_cons_of_ne_nil hne
  obtain ⟨hblank, hmark⟩ := hplain c List.mem_cons_self
  simp only [List.mem_cons, List.not_mem_nil, or_false, not_or] at hmark
  have ht : s.HasRoom → s.openForm c = .ok { s with mode := .atom [c] } := fun h => by
    simp [openForm, Nat.not_le.mpr h, hmark]
  rw [List.cons_append, forms?_openForm hs hblank ⟨hmark.2.2.2.2, hmark.2.1⟩ ht,
    forms?_wordRest s [c] (fun d hd => hplain d (List.mem_cons_of_mem c hd)) h, take]
  split <;> rfl

/-- A script that starts with a plain character starts with a word. -/
theorem exists_word {c : Char} (hc : IsPlain c) (cs : List Char) :
    ∃ (w : Word) (rest : List Char), c :: cs = w.chars ++ rest ∧ EndsWord rest := by
  have hplain : ∀ d ∈ cs.takeWhile (!isDelimiter ·), IsPlain d := fun d hd =>
    isPlain_iff.mpr (by simpa using List.all_eq_true.mp List.all_takeWhile d hd)
  refine ⟨⟨c :: cs.takeWhile (!isDelimiter ·), by simp, ?_⟩, cs.dropWhile (!isDelimiter ·), ?_, ?_⟩
  · intro d hd
    rcases List.mem_cons.mp hd with rfl | hd
    · exact hc
    · exact hplain d hd
  · simp
  · intro d hd hp
    have := List.head?_dropWhile_not (!isDelimiter ·) cs
    rw [hd] at this
    simp [isPlain_iff.mp hp] at this

/-! ## Whole scripts -/

/-- **On a script the reader does what `take` does on its tokens.** -/
theorem forms?_of_lexes {cs : List Char} {ts : List Token} (h : Lexes cs ts) {s : State}
    (hs : s.mode = .between) : s.forms? cs = s.formsOfTokens? ts := by
  -- a token that is taken leads to a state between two tokens again
  have next {t : Token} {cs : List Char} {ts : List Token} {s : State} (hs : s.mode = .between)
      (ih : ∀ {s : State}, s.mode = .between → s.forms? cs = s.formsOfTokens? ts) :
      (s.take t).bind (·.forms? cs) = s.formsOfTokens? (t :: ts) := by
    rw [formsOfTokens?]
    cases ht : s.take t with
    | none => rfl
    | some u => exact ih (take_mode hs ht)
  induction h generalizing s with
  | nil => simp [forms?, done, hs, formsOfTokens?]
  | blank hc _ ih => rw [forms?_blank hs hc, ih hs]
  | comment hb _ ih => rw [List.cons_append, forms?_semicolon hs, forms?_comment hs hb, ih hs]
  | lastComment hb => rw [forms?_semicolon hs, forms?_lastComment s hb, formsOfTokens?]
  | openList _ ih => rw [forms?_openList hs, next hs ih]
  | closeList _ ih => rw [forms?_closeList hs, next hs ih]
  | quoteMark _ ih => rw [forms?_quoteMark hs, next hs ih]
  | text hl _ ih => rw [forms?_text hs hl, next hs ih]
  | word w hw _ ih => rw [forms?_word hs w hw, next hs ih]

/-- **A script has tokens or is refused.** -/
theorem lexes_or_forms?_eq_none : ∀ cs : List Char,
    (∃ ts, Lexes cs ts) ∨ ∀ s : State, s.mode = .between → s.forms? cs = none
  | [] => Or.inl ⟨[], .nil⟩
  | c :: cs => by
    -- a token is refused where the script after it is
    have refused {t : Token} {rest : List Char} {s : State} (hs : s.mode = .between)
        (h : ∀ s : State, s.mode = .between → s.forms? rest = none) :
        (s.take t).bind (·.forms? rest) = none := by
      cases ht : s.take t with
      | none => rfl
      | some u => exact h u (take_mode hs ht)
    by_cases hblank : Text.isBlank c = true
    · rcases lexes_or_forms?_eq_none cs with ⟨ts, h⟩ | h
      · exact Or.inl ⟨ts, .blank hblank h⟩
      · exact Or.inr fun s hs => by rw [forms?_blank hs hblank, h s hs]
    by_cases hplain : IsPlain c
    · obtain ⟨w, rest, heq, hend⟩ := exists_word hplain cs
      rw [heq]
      have := w.length_pos
      rcases lexes_or_forms?_eq_none rest with ⟨ts, h⟩ | h
      · exact Or.inl ⟨.word w :: ts, .word w hend h⟩
      · exact Or.inr fun s hs => by rw [forms?_word hs w hend, refused hs h]
    have hmark : c ∈ ['(', ')', '\'', '"', ';'] :=
      Decidable.byContradiction fun h => hplain ⟨by simpa using hblank, h⟩
    simp only [List.mem_cons, List.not_mem_nil, or_false] at hmark
    rcases hmark with rfl | rfl | rfl | rfl | rfl
    · rcases lexes_or_forms?_eq_none cs with ⟨ts, h⟩ | h
      · exact Or.inl ⟨.openList :: ts, .openList h⟩
      · exact Or.inr fun s hs => by rw [forms?_openList hs, refused hs h]
    · rcases lexes_or_forms?_eq_none cs with ⟨ts, h⟩ | h
      · exact Or.inl ⟨.closeList :: ts, .closeList h⟩
      · exact Or.inr fun s hs => by rw [forms?_closeList hs, refused hs h]
    · rcases lexes_or_forms?_eq_none cs with ⟨ts, h⟩ | h
      · exact Or.inl ⟨.quoteMark :: ts, .quoteMark h⟩
      · exact Or.inr fun s hs => by rw [forms?_quoteMark hs, refused hs h]
    · rcases literal_or_forms?_eq_none cs with ⟨body, content, rest, heq, hl⟩ | h
      · rw [heq]
        rcases lexes_or_forms?_eq_none rest with ⟨ts, h⟩ | h
        · exact Or.inl ⟨.text content :: ts, .text hl h⟩
        · exact Or.inr fun s hs => by rw [← List.cons_append, forms?_text hs hl, refused hs h]
      · refine Or.inr fun s hs => ?_
        rw [forms?_doubleQuote hs, h s [], ite_self]
    · by_cases hline : '\n' ∈ cs
      · obtain ⟨body, rest, heq, hb⟩ := List.eq_append_cons_of_mem hline
        rw [heq]
        rcases lexes_or_forms?_eq_none rest with ⟨ts, h⟩ | h
        · exact Or.inl ⟨ts, .comment hb h⟩
        · exact Or.inr fun s hs => by rw [forms?_semicolon hs, forms?_comment hs hb, h s hs]
      · exact Or.inl ⟨[], .lastComment hline⟩
termination_by cs => cs.length
decreasing_by
  all_goals simp_wf
  all_goals
    have := congrArg List.length heq
    simp only [List.length_append, List.length_cons] at this
    omega

end HostScript.Reader.State
