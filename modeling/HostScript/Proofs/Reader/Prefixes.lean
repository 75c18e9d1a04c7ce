import HostScript.Proofs.Reader.Recognition

/-!
# What has been read of a script

After some characters of a script, the state of the reader says which tokens they make up, with the
last of them perhaps unfinished, and which lists and quotations these leave open (`Reached`). Every
character that is taken keeps this so, whatever comes after it. A character is refused only in the
place of a form, and then it is a closing parenthesis or there are too many forms around it
(`Refuses`). The end of the script is refused where a list, a quotation or a text is open
(`LeavesOpen`).

A prefix of a script may end inside a token, so it need not have tokens itself. What is said of it
is how the tokens of any text that comes after it make up the tokens of both (`Continues`).
-/

namespace HostScript.Reader

open State

/-! ## The place of a form -/

/-- `AtForm stack c` says that `c` stands in the place of a form, with the frames `stack` open: it
is not skipped and does not end a list. -/
structure AtForm (stack : List Frame) (c : Char) : Prop where
  not_blank : Text.isBlank c = false
  not_comment : c ≠ ';'
  not_end : c = ')' → ∀ items rest, stack ≠ .list items :: rest

/-- Where no list is open, a closing parenthesis is refused. -/
theorem close_of_not_list {s : State} (h : ∀ items rest, s.stack ≠ .list items :: rest) :
    s.close =
      if depthLimit ≤ s.stack.length then .error .tooDeep else .error .unexpectedClose := by
  unfold State.close
  split
  · next items rest hs => exact absurd hs (h items rest)
  · rfl
  · next hs =>
    rw [hs]
    rfl

/-- **What the reader does with a character in the place of a form.** -/
theorem AtForm.stepBetween_eq {s : State} {c : Char} (h : AtForm s.stack c) :
    s.stepBetween c =
      if depthLimit ≤ s.stack.length then .error .tooDeep
      else if c = '(' then .ok { s with mode := .between, stack := .list [] :: s.stack }
      else if c = ')' then .error .unexpectedClose
      else if c = '\'' then .ok { s with mode := .between, stack := .quotation :: s.stack }
      else if c = '"' then .ok { s with mode := .text [] }
      else .ok { s with mode := .atom [c] } := by
  simp only [stepBetween, h.not_blank, h.not_comment, Bool.false_eq_true, if_false]
  by_cases hclose : c = ')'
  · rw [if_pos hclose, close_of_not_list (h.not_end hclose), hclose]
    rfl
  · simp only [if_neg hclose]
    rfl

/-! ## Prefixes -/

/-- `TokensBefore before ts c` says that `before` is made up of the tokens `ts` and separators, and
that neither goes on with `c`. -/
def TokensBefore (before : List Char) (ts : List Token) (c : Char) : Prop :=
  ∀ cs us, Lexes (c :: cs) us → Lexes (before ++ c :: cs) (ts ++ us)

/-- What the mode says of the characters `before`, of which the tokens `ts` are finished: how the
tokens of a text that comes next go on from there. -/
def Continues (before : List Char) (ts : List Token) : Mode → Prop
  | .between => ∀ cs us, Lexes cs us → Lexes (before ++ cs) (ts ++ us)
  | .comment => ∀ body cs us, '\n' ∉ body → Lexes cs us →
    Lexes (before ++ body ++ '\n' :: cs) (ts ++ us)
  | .atom read => read ≠ [] ∧ (∀ c ∈ read, IsPlain c) ∧ ∀ (w : Word) more cs us,
    w.chars = read.reverse ++ more → EndsWord cs → Lexes cs us →
    Lexes (before ++ more ++ cs) (ts ++ .word w :: us)
  | .text read => ∀ body content cs us, Text.Literal body content → Lexes cs us →
    Lexes (before ++ body ++ '"' :: cs) (ts ++ .text (read.reverse ++ content) :: us)
  | .escape read => ∀ c body content cs us, Text.Literal body content → Lexes cs us →
    Lexes (before ++ c :: body ++ '"' :: cs)
      (ts ++ .text (read.reverse ++ Text.unescape c ++ content) :: us)

/-- The forms that are begun without a frame of their own. -/
def Mode.begun : Mode → Nat
  | .between | .comment => 0
  | .atom _ | .text _ | .escape _ => 1

/-- `Reached before ts s` says that the reader is in state `s` after the characters `before`, of
which the tokens `ts` are finished. -/
structure Reached (before : List Char) (ts : List Token) (s : State) : Prop where
  pending : Pending ts s.stack s.forms
  /-- An atom or a text that is being read counts as one more form. -/
  length_le : s.stack.length + s.mode.begun ≤ depthLimit
  continues : Continues before ts s.mode

/-- `FormAt before c stack` says that after `before` the frames `stack` are open, and that `c`
stands in the place of a form there. -/
structure FormAt (before : List Char) (c : Char) (stack : List Frame) : Prop where
  exists_tokens : ∃ ts forms, TokensBefore before ts c ∧ Pending ts stack forms
  atForm : AtForm stack c

/-- `Refuses before c fault` says why `c` is refused after `before`: it stands in the place of a
form, and has as many lists and quotations around it as may be open, or fewer and is a closing
parenthesis. -/
inductive Refuses (before : List Char) (c : Char) : Fault → Prop
  | tooDeep {stack : List Frame} :
    FormAt before c stack → stack.length = depthLimit → Refuses before c .tooDeep
  | unexpectedClose {stack : List Frame} :
    FormAt before c stack → stack.length < depthLimit → c = ')' →
    Refuses before c .unexpectedClose

theorem reached_nil : Reached [] [] {} where
  pending := .nothing .nil (by simp)
  length_le := Nat.zero_le _
  continues := fun _ _ h => h

/-! ## One character -/

/-- A form that is finished leaves no more frames open than there were. -/
theorem length_deliver_le (forms : List Expr) (stack : List Frame) (e : Expr) :
    (deliver forms stack e).stack.length ≤ stack.length := by
  induction stack generalizing e with
  | nil => exact Nat.le_refl _
  | cons frame stack ih =>
    cases frame with
    | list items => exact Nat.le_refl _
    | quotation => exact Nat.le_succ_of_le (ih e.quotation)

theorem length_close_le {s t : State} (h : s.close = .ok t) :
    t.stack.length ≤ s.stack.length := by
  unfold State.close at h
  split at h
  · next items stack hs =>
    rw [← Except.ok.inj h, hs]
    exact Nat.le_succ_of_le (length_deliver_le _ _ _)
  · split at h <;> cases h
  · cases h

/-- The characters of a token of one character are added to those before. -/
theorem TokensBefore.continues {before : List Char} {ts new : List Token} {c : Char}
    (h : TokensBefore before ts c) (hc : ∀ cs us, Lexes cs us → Lexes (c :: cs) (new ++ us)) :
    Continues (before ++ [c]) (ts ++ new) .between := by
  intro cs us hcs
  rw [List.append_assoc, List.append_assoc]
  exact h cs (new ++ us) (hc cs us hcs)

/-- What comes of the character `c` after `before`. -/
def Takes (before : List Char) (c : Char) : Except Fault State → Prop
  | .ok t => ∃ ts, Reached (before ++ [c]) ts t
  | .error fault => Refuses before c fault

/-- The first character of a form is taken if there is room for it. -/
theorem takes_form {before : List Char} {ts : List Token} {s : State} {c : Char}
    (hc : TokensBefore before ts c) (hp : Pending ts s.stack s.forms)
    (hle : s.stack.length ≤ depthLimit) (h : AtForm s.stack c) :
    Takes before c (s.stepBetween c) := by
  rw [h.stepBetween_eq]
  by_cases hfull : depthLimit ≤ s.stack.length
  · rw [if_pos hfull]
    exact .tooDeep ⟨⟨ts, s.forms, hc, hp⟩, h⟩ (Nat.le_antisymm hle hfull)
  rw [if_neg hfull]
  have hroom : s.stack.length < depthLimit := Nat.not_le.mp hfull
  by_cases hopen : c = '('
  · rw [if_pos hopen]
    subst hopen
    exact ⟨_, .list hp .nil hroom (by simp), hroom, hc.continues fun _ _ => .openList⟩
  by_cases hclose : c = ')'
  · rw [if_neg hopen, if_pos hclose]
    exact .unexpectedClose ⟨⟨ts, s.forms, hc, hp⟩, h⟩ hroom hclose
  by_cases hquote : c = '\''
  · rw [if_neg hopen, if_neg hclose, if_pos hquote]
    subst hquote
    exact ⟨_, .quotation hp, hroom, hc.continues fun _ _ => .quoteMark⟩
  by_cases htext : c = '"'
  · rw [if_neg hopen, if_neg hclose, if_neg hquote, if_pos htext]
    subst htext
    refine ⟨ts, hp, hroom, fun body content cs us hb hcs => ?_⟩
    simpa using hc _ _ (.text hb hcs)
  · rw [if_neg hopen, if_neg hclose, if_neg hquote, if_neg htext]
    have hplain : IsPlain c := by
      refine ⟨h.not_blank, ?_⟩
      simp [hopen, hclose, hquote, htext, h.not_comment]
    refine ⟨ts, hp, hroom, by simp, by simpa using hplain, fun w more cs us hw hend hcs => ?_⟩
    have hcs := Lexes.word w hend hcs
    rw [hw] at hcs
    simpa using hc _ _ hcs

/-- **Between two tokens every character keeps the state right or is refused for a reason.** -/
theorem takes_stepBetween {before : List Char} {ts : List Token} {s : State} {c : Char}
    (hc : TokensBefore before ts c) (hp : Pending ts s.stack s.forms)
    (hle : s.stack.length ≤ depthLimit) : Takes before c (s.stepBetween c) := by
  by_cases hblank : Text.isBlank c = true
  · rw [stepBetween, if_pos hblank]
    refine ⟨ts, hp, hle, fun cs us hcs => ?_⟩
    simpa using hc _ _ (.blank hblank hcs)
  by_cases hcomment : c = ';'
  · rw [stepBetween, if_neg hblank, if_pos hcomment]
    subst hcomment
    refine ⟨ts, hp, hle, fun body cs us hb hcs => ?_⟩
    simpa using hc _ _ (.comment hb hcs)
  by_cases hend : c = ')' ∧ ∃ items rest, s.stack = .list items :: rest
  · obtain ⟨rfl, items, rest, hs⟩ := hend
    rw [stepBetween, if_neg hblank, if_neg hcomment, if_pos rfl]
    cases hclose : s.close with
    | error fault => simp [State.close, hs] at hclose
    | ok t =>
      refine ⟨_, hp.close hclose, ?_, ?_⟩
      · rw [close_mode hclose]
        exact Nat.le_trans (length_close_le hclose) hle
      · rw [close_mode hclose]
        exact hc.continues fun _ _ => .closeList
  · refine takes_form hc hp hle ⟨by simpa using hblank, hcomment, ?_⟩
    intro hclose items rest hs
    exact hend ⟨hclose, items, rest, hs⟩

/-- A form without parts is finished. -/
theorem Pending.finish {ts us : List Token} {s : State} (h : Pending ts s.stack s.forms)
    (hroom : s.HasRoom) {e : Expr} (he : Form us e) (hn : e.nesting = 1) :
    Pending (ts ++ us) (s.finish e).stack (s.finish e).forms :=
  h.deliver he (by rw [hn]; exact hroom)

/-- **Every character keeps the state right or is refused for a reason.** -/
theorem Reached.takes {before : List Char} {ts : List Token} {s : State}
    (h : Reached before ts s) (c : Char) : Takes before c (s.step c) := by
  obtain ⟨mode, stack, forms⟩ := s
  obtain ⟨hp, hle, hcontinues⟩ := h
  cases mode with
  | between => exact takes_stepBetween (fun cs us hcs => hcontinues _ _ hcs) hp hle
  | comment =>
    by_cases hline : c = '\n'
    · subst hline
      refine ⟨ts, hp, hle, fun cs us hcs => ?_⟩
      simpa using hcontinues [] cs us (by simp) hcs
    · simp only [step, if_neg hline]
      refine ⟨ts, hp, hle, fun body cs us hb hcs => ?_⟩
      simpa using hcontinues (c :: body) cs us (by simp [hb, Ne.symm hline]) hcs
  | atom read =>
    obtain ⟨hne, hplain, hword⟩ := hcontinues
    cases hc : isDelimiter c with
    | true =>
      -- The atom ends before `c`, which is taken as it is between two tokens.
      simp only [step, hc, if_true]
      let w : Word := ⟨read.reverse, by simpa using hne, by simpa using hplain⟩
      have hend : ∀ cs, EndsWord (c :: cs) := by
        intro cs d hd hd'
        obtain rfl : c = d := by simpa using hd
        rw [isPlain_iff, hc] at hd'
        cases hd'
      have hbefore : TokensBefore before (ts ++ [.word w]) c := fun cs us hcs => by
        simpa [w] using hword w [] (c :: cs) us (by simp [w]) (hend cs) hcs
      refine takes_stepBetween hbefore (hp.finish hle (.atom w) (nesting_atom _)) ?_
      exact Nat.le_trans (length_deliver_le _ _ _) (Nat.le_of_succ_le hle)
    | false =>
      simp only [step, hc, Bool.false_eq_true, if_false]
      refine ⟨ts, hp, hle, by simp, ?_, fun w more cs us hw hend hcs => ?_⟩
      · simpa using ⟨isPlain_iff.mpr hc, hplain⟩
      · simpa using hword w (c :: more) cs us (by simpa using hw) hend hcs
  | text read =>
    by_cases hquote : c = '"'
    · simp only [step, if_pos hquote]
      subst hquote
      refine ⟨_, hp.finish hle (.text read.reverse) (by simp only [Expr.nesting]), ?_, ?_⟩
      · rw [finish_mode]
        exact Nat.le_trans (length_deliver_le _ _ _) (Nat.le_of_succ_le hle)
      · rw [finish_mode]
        intro cs us hcs
        simpa using hcontinues [] [] cs us .nil hcs
    by_cases hescape : c = '\\'
    · simp only [step, if_neg hquote, if_pos hescape]
      refine ⟨ts, hp, hle, fun d body content cs us hb hcs => ?_⟩
      subst hescape
      simpa using hcontinues _ _ _ _ (.escape (Text.escape_unescape d) hb) hcs
    · simp only [step, if_neg hquote, if_neg hescape]
      refine ⟨ts, hp, hle, fun body content cs us hb hcs => ?_⟩
      simpa using hcontinues _ _ _ _ (.plain hquote hescape hb) hcs
  | escape read =>
    refine ⟨ts, hp, hle, fun body content cs us hb hcs => ?_⟩
    simpa [Text.unescape_reverse] using hcontinues c body content cs us hb hcs

/-! ## Many characters -/

/-- **Every run keeps the state right.** -/
theorem Reached.run {before : List Char} {ts : List Token} {s t : State} (h : Reached before ts s)
    {position : Nat} {cs : List Char} (hrun : s.run position cs = .ok t) :
    ∃ us, Reached (before ++ cs) us t := by
  induction cs generalizing before ts s position with
  | nil =>
    obtain rfl := Except.ok.inj hrun
    exact ⟨ts, by simpa using h⟩
  | cons c cs ih =>
    have hc := h.takes c
    rw [State.run] at hrun
    cases hstep : s.step c with
    | error fault => simp [hstep] at hrun
    | ok u =>
      rw [hstep] at hc
      obtain ⟨us, hu⟩ := hc
      simp only [hstep] at hrun
      simpa using ih hu hrun

/-- A run that is refused is refused at one of its characters, and takes those before. -/
theorem exists_of_run_eq_error {s : State} {position : Nat} {cs : List Char} {e : ParseError}
    (h : s.run position cs = .error e) :
    ∃ before c rest t, cs = before ++ c :: rest ∧ s.run position before = .ok t ∧
      t.step c = .error e.fault ∧ e.position = position + byteLength before := by
  induction cs generalizing s position with
  | nil => cases h
  | cons c cs ih =>
    rw [State.run] at h
    cases hstep : s.step c with
    | error fault =>
      simp only [hstep] at h
      obtain rfl := Except.error.inj h
      exact ⟨[], c, cs, s, rfl, rfl, hstep, rfl⟩
    | ok u =>
      simp only [hstep] at h
      obtain ⟨before, d, rest, t, rfl, hrun, hfault, hposition⟩ := ih h
      refine ⟨c :: before, d, rest, t, rfl, ?_, hfault, ?_⟩
      · simpa only [State.run, hstep] using hrun
      · rw [hposition, byteLength_cons, Nat.add_assoc]

/-! ## The end -/

/-- `LeavesOpen cs fault` says what is open at the end of the script `cs`. Inside a text that is the
text, whatever stands around it. Elsewhere it is the innermost frame, once a line feed has ended an
atom or a comment. -/
inductive LeavesOpen (cs : List Char) : Fault → Prop
  | text {ts : List Token} {read : List Char} :
    Continues cs ts (.text read) → LeavesOpen cs .unterminatedText
  | escape {ts : List Token} {read : List Char} :
    Continues cs ts (.escape read) → LeavesOpen cs .unterminatedEscape
  | list {ts : List Token} {items : List Expr} {stack : List Frame} {forms : List Expr} :
    Continues (cs ++ ['\n']) ts .between → Pending ts (.list items :: stack) forms →
    LeavesOpen cs .unterminatedList
  | quotation {ts : List Token} {stack : List Frame} {forms : List Expr} :
    Continues (cs ++ ['\n']) ts .between → Pending ts (.quotation :: stack) forms →
    LeavesOpen cs .nothingToQuote

/-- Outside of texts a line feed is taken, and then what is open is what was open before. -/
theorem exists_step_lineFeed {s : State} (ht : ∀ read, s.mode ≠ .text read)
    (he : ∀ read, s.mode ≠ .escape read) :
    ∃ u, s.step '\n' = .ok u ∧ u.mode = .between ∧ u.closed = s.done := by
  have hblank : Text.isBlank '\n' = true := by decide
  have hdelimiter : isDelimiter '\n' = true := by decide
  obtain ⟨mode, stack, forms⟩ := s
  cases mode with
  | between =>
    refine ⟨⟨.between, stack, forms⟩, ?_, rfl, rfl⟩
    simp only [step, stepBetween, hblank, if_true]
  | comment =>
    refine ⟨⟨.between, stack, forms⟩, ?_, rfl, rfl⟩
    simp only [step, if_true]
  | atom read =>
    refine ⟨{ deliver forms stack (atom read.reverse) with mode := .between }, ?_, rfl, rfl⟩
    simp only [step, stepBetween, hdelimiter, hblank, if_true, finish]
  | text read => exact absurd rfl (ht read)
  | escape read => exact absurd rfl (he read)

/-- **Where the end of a script is refused, something is open.** -/
theorem Reached.leavesOpen {cs : List Char} {ts : List Token} {s : State} (h : Reached cs ts s)
    {fault : Fault} (hdone : s.done = .error fault) : LeavesOpen cs fault := by
  by_cases ht : ∃ read, s.mode = .text read
  · obtain ⟨read, ht⟩ := ht
    have hcontinues := h.continues
    rw [ht] at hcontinues
    simp only [done, ht, Except.error.injEq] at hdone
    exact hdone ▸ .text hcontinues
  by_cases he : ∃ read, s.mode = .escape read
  · obtain ⟨read, he⟩ := he
    have hcontinues := h.continues
    rw [he] at hcontinues
    simp only [done, he, Except.error.injEq] at hdone
    exact hdone ▸ .escape hcontinues
  obtain ⟨u, hstep, hmode, hclosed⟩ := exists_step_lineFeed (s := s)
    (fun read hread => ht ⟨read, hread⟩) (fun read hread => he ⟨read, hread⟩)
  have htakes := h.takes '\n'
  rw [hstep] at htakes
  obtain ⟨us, hp, -, hcontinues⟩ := htakes
  rw [hmode] at hcontinues
  rw [hdone, closed] at hclosed
  split at hclosed
  · cases hclosed
  · next items stack hs =>
    rw [hs] at hp
    exact Except.error.inj hclosed ▸ .list hcontinues hp
  · next stack hs =>
    rw [hs] at hp
    exact Except.error.inj hclosed ▸ .quotation hcontinues hp

end HostScript.Reader
