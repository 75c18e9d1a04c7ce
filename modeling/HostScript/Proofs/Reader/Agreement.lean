import HostScript.Proofs.Reader.Descent
import HostScript.Proofs.Reader.Prefixes

/-!
# The descent agrees with the reader

`Descent.readForms_eq` says that reading by descent does what the reader does on every text, so the
refusals that only the descent has never come up. The two go alike since the stack of the reader
holds what the calls in progress still have to do (`Agrees`): a call that reads a form begins and
ends where the reader begins and finishes the form, and as many frames are open as calls in progress
count, before it and after it.
-/

namespace HostScript.Reader

/-! ## What the reader makes of the rest of a script -/

namespace State

/-- The forms of a script of which the given characters are left, the first of them at the given
byte, or its refusal. -/
def outcome (s : State) (position : Nat) : List Char → Except ParseError (List Expr)
  | [] => s.done.mapError (⟨position, ·⟩)
  | c :: rest =>
    match s.step c with
    | .ok t => t.outcome (position + c.utf8Size) rest
    | .error fault => .error ⟨position, fault⟩

theorem outcome_eq_run (s : State) (position : Nat) (cs : List Char) :
    s.outcome position cs =
      match s.run position cs with
      | .ok t => t.done.mapError (⟨position + byteLength cs, ·⟩)
      | .error e => .error e := by
  induction cs generalizing s position with
  | nil => rfl
  | cons c cs ih =>
    rw [outcome, run]
    cases s.step c with
    | error fault => rfl
    | ok t =>
      simp only [byteLength_cons, ← Nat.add_assoc]
      exact ih t (position + c.utf8Size)

theorem formsOfChars_eq_outcome (cs : List Char) : formsOfChars cs = ({} : State).outcome 0 cs := by
  rw [outcome_eq_run, formsOfChars, Nat.zero_add]
  cases ({} : State).run 0 cs with
  | error e => rfl
  | ok s => cases h : s.done <;> simp only [h] <;> rfl

end State

namespace Descent

/-- What the reader makes of the script from the cursor on. -/
def reading (s : State) (cur : Cursor) : Except ParseError (List Expr) :=
  s.outcome cur.position cur.rest

namespace Cursor

/-- The cursor at the first of some characters. -/
theorem next?_cons (c : Char) (rest : List Char) (position depth : Nat) :
    next? ⟨c :: rest, position, depth⟩ =
      some (c, ⟨⟨rest, position + c.utf8Size, depth⟩, Nat.lt_succ_self _⟩) := rfl

theorem rest_of_next?_eq_none {cur : Cursor} (h : cur.next? = none) : cur.rest = [] := by
  unfold next? at h
  split at h
  · assumption
  · cases h

theorem of_next?_eq_some {cur : Cursor} {c : Char} {next : After cur}
    (h : cur.next? = some (c, next)) :
    cur.rest = c :: next.1.rest ∧ next.1.position = cur.position + c.utf8Size ∧
      next.1.depth = cur.depth := by
  unfold next? at h
  split at h
  · cases h
  · next d rest hrest =>
    simp only [Option.some.injEq, Prod.mk.injEq] at h
    obtain ⟨rfl, rfl⟩ := h
    exact ⟨hrest, rfl, rfl⟩

end Cursor

theorem reading_of_next?_eq_none {cur : Cursor} (h : cur.next? = none) (s : State) :
    reading s cur = s.done.mapError (⟨cur.position, ·⟩) := by
  rw [reading, Cursor.rest_of_next?_eq_none h, State.outcome]

theorem reading_of_next?_eq_some {cur : Cursor} {c : Char} {next : After cur}
    (h : cur.next? = some (c, next)) (s : State) :
    reading s cur =
      match s.step c with
      | .ok t => reading t next
      | .error fault => .error ⟨cur.position, fault⟩ := by
  obtain ⟨hrest, hposition, -⟩ := Cursor.of_next?_eq_some h
  simp only [reading, hrest, hposition, State.outcome]

/-! ## Agreement -/

/-- `Agrees s t cur outcome` says that the descent gives `outcome` for what the reader does from
state `s` on at `cur`: a form that is read is finished in state `t`, and a text that is refused is
refused alike. In both cases as many forms are being read as before. -/
def Agrees (s t : State) (cur : Cursor) {start : Cursor} : Outcome start Expr → Prop
  | .ok (e, next) => reading s cur = reading (t.finish e) next ∧ next.1.depth = cur.depth
  | .error (refusal, stop) =>
    ∃ fault, refusal = .fault fault ∧ reading s cur = .error ⟨stop.position, fault⟩ ∧
      stop.depth = cur.depth

namespace Agrees

variable {s s' t t' : State} {cur cur' start start' : Cursor} {outcome : Outcome start Expr}

theorem since (h : Agrees s t cur outcome) (hle : start.rest.length ≤ start'.rest.length) :
    Agrees s t cur (outcome.since hle) := by
  cases outcome <;> exact h

/-- The reader may have gone on to `cur'` before the descent begins. -/
theorem of_reading (hs : reading s cur = reading s' cur') (hdepth : cur'.depth = cur.depth)
    (h : Agrees s' t cur' outcome) : Agrees s t cur outcome := by
  cases outcome with
  | ok found =>
    obtain ⟨hreading, hnext⟩ := h
    exact ⟨hs.trans hreading, hnext.trans hdepth⟩
  | error refused =>
    obtain ⟨fault, hfault, hreading, hstop⟩ := h
    exact ⟨fault, hfault, hs.trans hreading, hstop.trans hdepth⟩

theorem bind (h : Agrees s t cur outcome) {f : Expr → (next : After start) → Outcome next.1 Expr}
    (hf : ∀ e (next : After start), next.1.depth = cur.depth →
      Agrees (t.finish e) t' next (f e next)) :
    Agrees s t' cur (outcome.bind f) := by
  cases outcome with
  | error refused => exact h
  | ok found =>
    obtain ⟨e, next⟩ := found
    obtain ⟨hreading, hdepth⟩ := h
    exact ((hf e next hdepth).of_reading hreading hdepth).since (Nat.le_of_lt next.2)

/-- A quote mark that waits takes the form that is read. -/
theorem quotation (h : Agrees s { t with stack := .quotation :: t.stack } cur outcome) :
    Agrees s t cur (outcome.map Expr.quotation) := by
  cases outcome <;> exact h

theorem leave {outcome : Outcome { cur with depth := cur.depth + 1 } Expr}
    (h : Agrees s t { cur with depth := cur.depth + 1 } outcome) :
    Agrees s t cur (Outcome.leave (cur.depth + 1) outcome) := by
  cases outcome with
  | ok found =>
    obtain ⟨hreading, hdepth⟩ := h
    exact ⟨hreading, by simp [hdepth]⟩
  | error refused =>
    obtain ⟨fault, hfault, hreading, hdepth⟩ := h
    exact ⟨fault, hfault, hreading, by simp [hdepth]⟩

end Agrees

/-! ## Blanks, texts and atoms -/

mutual

theorem outcome_skipFrom (stack : List Frame) (forms : List Expr) (depth position : Nat) :
    ∀ cs : List Char, State.outcome ⟨.between, stack, forms⟩ position cs =
      reading ⟨.between, stack, forms⟩ (Cursor.skipFrom depth position cs)
  | [] => rfl
  | c :: cs => by
    rw [Cursor.skipFrom]
    split
    · next hblank =>
      rw [← outcome_skipFrom stack forms depth _ cs]
      simp only [State.outcome, State.step, State.stepBetween, hblank, if_true]
    · next hblank =>
      split
      · next hcomment =>
        rw [← outcome_skipComment stack forms depth _ cs]
        subst hcomment
        simp only [State.outcome, State.step, State.stepBetween, hblank, if_true, if_false,
          Bool.false_eq_true]
      · rfl

theorem outcome_skipComment (stack : List Frame) (forms : List Expr) (depth position : Nat) :
    ∀ cs : List Char, State.outcome ⟨.comment, stack, forms⟩ position cs =
      reading ⟨.between, stack, forms⟩ (Cursor.skipComment depth position cs)
  | [] => rfl
  | c :: cs => by
    rw [Cursor.skipComment]
    split
    · next hline =>
      rw [← outcome_skipFrom stack forms depth _ cs]
      simp only [State.outcome, State.step, hline, if_true]
    · next hline =>
      rw [← outcome_skipComment stack forms depth _ cs]
      simp only [State.outcome, State.step, hline, if_false]

end

theorem reading_skip {s : State} (hs : s.mode = .between) (cur : Cursor) :
    reading s cur = reading s cur.skip := by
  obtain ⟨mode, stack, forms⟩ := s
  obtain rfl : mode = .between := hs
  exact outcome_skipFrom stack forms cur.depth cur.position cur.rest

/-- **A text is read alike.** -/
theorem text_agrees (s : State) (read : List Char) (cur : Cursor) :
    Agrees { s with mode := .text read } s cur (text read cur) := by
  rw [text]
  cases hnext : cur.next? with
  | none => exact ⟨_, rfl, reading_of_next?_eq_none hnext _, rfl⟩
  | some found =>
    obtain ⟨c, next⟩ := found
    have hreading := reading_of_next?_eq_some hnext { s with mode := .text read }
    have hdepth := (Cursor.of_next?_eq_some hnext).2.2
    simp only [State.step] at hreading
    by_cases hquote : c = '"'
    · simp only [if_pos hquote] at hreading ⊢
      exact ⟨hreading, hdepth⟩
    by_cases hescape : c = '\\'
    · simp only [if_neg hquote, if_pos hescape] at hreading ⊢
      cases hnext' : next.1.next? with
      | none =>
        exact ⟨_, rfl, hreading.trans (reading_of_next?_eq_none hnext' _), hdepth⟩
      | some found' =>
        obtain ⟨d, next'⟩ := found'
        have hreading' := reading_of_next?_eq_some hnext' { s with mode := .escape read }
        simp only [State.step] at hreading'
        exact ((text_agrees s (Text.unescape d ++ read) next').of_reading
          (hreading.trans hreading')
          ((Cursor.of_next?_eq_some hnext').2.2.trans hdepth)).since _
    · simp only [if_neg hquote, if_neg hescape] at hreading ⊢
      exact ((text_agrees s (c :: read) next).of_reading hreading hdepth).since _
termination_by cur.rest.length
decreasing_by
  · exact Nat.lt_trans next'.2 next.2
  · exact next.2

/-- An atom is taken up to its end. -/
theorem outcome_atom (s : State) (read : List Char) (position : Nat) (cs : List Char) :
    ({ s with mode := .atom read } : State).outcome position cs =
      (s.finish (atom (read.reverse ++ cs.takeWhile (!isDelimiter ·)))).outcome
        (position + byteLength (cs.takeWhile (!isDelimiter ·)))
        (cs.dropWhile (!isDelimiter ·)) := by
  induction cs generalizing read position with
  | nil =>
    simp only [List.takeWhile_nil, List.dropWhile_nil, List.append_nil, byteLength_nil,
      Nat.add_zero, State.outcome]
    simp [State.done, State.finish, State.deliver_mode]
  | cons c cs ih =>
    cases hc : isDelimiter c with
    | true =>
      simp [State.outcome, State.step, hc, State.finish, State.deliver_mode]
    | false =>
      simp [State.outcome, State.step, hc, ih, Nat.add_assoc]

theorem reading_atom {s : State} {cur : Cursor} {c : Char} {rest : List Char}
    (hrest : cur.rest = c :: rest) (hc : isDelimiter c = false)
    (hstep : s.step c = .ok { s with mode := .atom [c] }) :
    reading s cur =
      (s.finish (atom (cur.rest.takeWhile (!isDelimiter ·)))).outcome
        (cur.position + byteLength (cur.rest.takeWhile (!isDelimiter ·)))
        (cur.rest.dropWhile (!isDelimiter ·)) := by
  simp only [reading, hrest, State.outcome, hstep, outcome_atom]
  simp [hc, Nat.add_assoc]

/-- **An atom is read alike.** -/
theorem word_agrees {s : State} {cur : Cursor} {c : Char} {rest : List Char}
    (hrest : cur.rest = c :: rest) (hc : isDelimiter c = false)
    (hstep : s.step c = .ok { s with mode := .atom [c] }) : Agrees s s cur (word cur) := by
  have hne : cur.rest.takeWhile (!isDelimiter ·) ≠ [] := by simp [hrest, hc]
  rw [word, dif_neg hne]
  exact ⟨reading_atom hrest hc hstep, rfl⟩

/-! ## Forms -/

/-- What is left after skipping, if anything is, is a form or ends a list. -/
theorem atForm_of_skip {stack : List Frame} {cur : Cursor} {c : Char} {rest : List Char}
    (hrest : cur.skip.rest = c :: rest)
    (hend : c = ')' → ∀ items rest, stack ≠ .list items :: rest) : AtForm stack c := by
  obtain ⟨hblank, hcomment⟩ := cur.skips_skip.head c rest hrest
  exact ⟨hblank, hcomment, hend⟩

/-- Nothing is skipped before a form. -/
theorem skip_eq_self {stack : List Frame} {cur : Cursor} {c : Char} {rest : List Char}
    (h : AtForm stack c) (hrest : cur.rest = c :: rest) : cur.skip = cur := by
  obtain ⟨_, position, depth⟩ := cur
  obtain rfl := hrest
  simp [Cursor.skip, Cursor.skipFrom, h.not_blank, h.not_comment]

mutual

/-- **A form is read alike.** -/
theorem form_agrees {stack : List Frame} (forms : List Expr) {cur : Cursor} {c : Char}
    {rest : List Char} (hrest : cur.rest = c :: rest) (h : AtForm stack c)
    (hdepth : cur.depth = stack.length) :
    Agrees ⟨.between, stack, forms⟩ ⟨.between, stack, forms⟩ cur (form cur) := by
  rw [form]
  split
  · next hfull =>
    refine ⟨.tooDeep, rfl, ?_, rfl⟩
    have hstep : State.step ⟨.between, stack, forms⟩ c = .error .tooDeep :=
      h.stepBetween_eq.trans (if_pos (hdepth ▸ hfull))
    rw [reading, hrest, State.outcome, hstep]
  · next hroom =>
    rw [hdepth, Nat.not_le] at hroom
    have hrest : ({ cur with depth := cur.depth + 1 } : Cursor).rest = c :: rest := hrest
    exact (nested_agrees forms hrest h hroom (congrArg (· + 1) hdepth)).leave
termination_by 3 * cur.rest.length + 1
decreasing_by exact Nat.lt_succ_self _

/-- The same once there is room for the form. -/
theorem nested_agrees {stack : List Frame} (forms : List Expr) {cur : Cursor} {c : Char}
    {rest : List Char} (hrest : cur.rest = c :: rest) (h : AtForm stack c)
    (hroom : stack.length < depthLimit) (hdepth : cur.depth = stack.length + 1) :
    Agrees ⟨.between, stack, forms⟩ ⟨.between, stack, forms⟩ cur (nested cur) := by
  rw [nested]
  have hskipDepth := cur.skips_skip.depth
  refine Agrees.since (.of_reading (reading_skip rfl cur) hskipDepth ?_) _
  have hskipRest : cur.skip.rest = c :: rest := (skip_eq_self h hrest).symm ▸ hrest
  cases hnext : cur.skip.next? with
  | none =>
    rw [Cursor.rest_of_next?_eq_none hnext] at hskipRest
    cases hskipRest
  | some found =>
    obtain ⟨d, next⟩ := found
    obtain ⟨hrest', -, hnextDepth⟩ := Cursor.of_next?_eq_some hnext
    obtain ⟨rfl, -⟩ := List.cons.inj (hskipRest.symm.trans hrest')
    have hstep : State.step ⟨.between, stack, forms⟩ c = _ :=
      h.stepBetween_eq.trans (if_neg (Nat.not_le.mpr hroom))
    have hreading := reading_of_next?_eq_some hnext ⟨.between, stack, forms⟩
    have hexpect : expect c cur.skip = .ok ((), next) := by simp only [expect, hnext, if_true]
    have hdepth' : next.1.depth = stack.length + 1 := hnextDepth.trans (hskipDepth.trans hdepth)
    by_cases hopen : c = '('
    · subst hopen
      simp only [hstep, hexpect, if_true] at hreading ⊢
      exact ((items_agrees stack forms [] next hdepth').of_reading hreading hnextDepth).since
        (Nat.le_of_lt next.2)
    by_cases hclose : c = ')'
    · simp only [hstep, if_neg hopen, if_pos hclose] at hreading ⊢
      exact ⟨_, rfl, hreading, rfl⟩
    by_cases hquote : c = '\''
    · simp only [hstep, if_neg hopen, if_neg hclose, if_pos hquote] at hreading ⊢
      have hskipDepth' := next.1.skips_skip.depth
      refine Agrees.since (.of_reading (hreading.trans (reading_skip rfl next))
        (hskipDepth'.trans hnextDepth) ?_) _
      split
      · next hend =>
        refine ⟨.nothingToQuote, rfl, ?_, rfl⟩
        rw [reading, hend]
        rfl
      · next hne =>
        obtain ⟨d, rest', hrest'⟩ := List.exists_cons_of_ne_nil hne
        have h : AtForm (.quotation :: stack) d := atForm_of_skip hrest' (by simp)
        have hform := form_agrees forms hrest' h (hskipDepth'.trans hdepth')
        exact hform.quotation (t := ⟨.between, stack, forms⟩)
    by_cases htext : c = '"'
    · subst htext
      simp only [hstep, hexpect, if_neg hopen, if_neg hclose, if_neg hquote, if_true] at hreading ⊢
      exact ((text_agrees ⟨.between, stack, forms⟩ [] next).of_reading hreading hnextDepth).since
        (Nat.le_of_lt next.2)
    · simp only [if_neg hopen, if_neg hclose, if_neg hquote, if_neg htext] at hstep ⊢
      have hplain : isDelimiter c = false := by
        simp [isDelimiter, isMark, h.not_blank, h.not_comment, hopen, hclose, hquote, htext]
      exact word_agrees hskipRest hplain hstep
termination_by 3 * cur.rest.length
decreasing_by
  all_goals have hskip := cur.length_skip_le
  · have := next.2
    omega
  · have := next.1.length_skip_le
    have := next.2
    omega

/-- The items of a list are read alike, up to its end. -/
theorem items_agrees (stack : List Frame) (forms read : List Expr) (cur : Cursor)
    (hdepth : cur.depth = stack.length + 1) :
    Agrees ⟨.between, .list read :: stack, forms⟩ ⟨.between, stack, forms⟩ cur
      (items read cur) := by
  rw [items]
  have hskipDepth := cur.skips_skip.depth
  refine Agrees.since (.of_reading (reading_skip rfl cur) hskipDepth ?_) _
  cases hnext : cur.skip.next? with
  | none => exact ⟨_, rfl, reading_of_next?_eq_none hnext _, rfl⟩
  | some found =>
    obtain ⟨c, next⟩ := found
    obtain ⟨hrest, -, hnextDepth⟩ := Cursor.of_next?_eq_some hnext
    by_cases hclose : c = ')'
    · simp only [if_pos hclose]
      refine ⟨?_, hnextDepth⟩
      rw [reading_of_next?_eq_some hnext, hclose]
      rfl
    · simp only [if_neg hclose]
      have h : AtForm (.list read :: stack) c := atForm_of_skip hrest (absurd · hclose)
      have hform := form_agrees forms hrest h (hskipDepth.trans hdepth)
      exact hform.bind fun e next hnext =>
        items_agrees stack forms (e :: read) next (hnext.trans (hskipDepth.trans hdepth))
termination_by 3 * cur.rest.length + 2
decreasing_by
  all_goals have hskip := cur.length_skip_le
  · omega
  · have := next.2
    omega

end

/-! ## Scripts -/

/-- A refusal of the reader as the descent gives it. -/
def ofParseError (e : ParseError) : Refusal × Nat := (.fault e.fault, e.position)

theorem script_agrees (read : List Expr) (cur : Cursor) (hdepth : cur.depth = 0) :
    (script read cur).mapError (fun (refusal, stop) => (refusal, stop.position)) =
      (reading { forms := read } cur).mapError ofParseError := by
  rw [script, reading_skip rfl cur]
  have hskipDepth := cur.skips_skip.depth.trans hdepth
  split
  · next hend =>
    rw [reading, hend]
    rfl
  · next hne =>
    obtain ⟨c, rest, hrest⟩ := List.exists_cons_of_ne_nil hne
    have h : AtForm [] c := atForm_of_skip hrest (by simp)
    have hform := form_agrees read hrest h hskipDepth
    cases hfound : form cur.skip with
    | error refused =>
      obtain ⟨refusal, stop⟩ := refused
      rw [hfound] at hform
      obtain ⟨fault, rfl, hreading, -⟩ := hform
      rw [hreading]
      rfl
    | ok found =>
      obtain ⟨e, next⟩ := found
      rw [hfound] at hform
      obtain ⟨hreading, hnextDepth⟩ := hform
      rw [hreading]
      exact script_agrees (e :: read) next (hnextDepth.trans hskipDepth)
termination_by cur.rest.length
decreasing_by exact Nat.lt_of_lt_of_le next.2 cur.length_skip_le

/-- **By descent every script is read as the reader reads it, or refused for the same reason at the
same byte. The refusals that only the descent has never come up.** -/
theorem readForms_eq (source : String) :
    readForms source = (HostScript.readForms source).mapError ofParseError := by
  rw [readForms, script_agrees [] _ rfl, HostScript.readForms,
    State.formsOfChars_eq_outcome]
  rfl

end Descent

end HostScript.Reader
