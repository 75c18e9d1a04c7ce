import HostScript.Reader.Basic

/-!
# Scripts one after the other

A script that is followed by a line feed and a further text is read as the two are read one by one
(`readForms_append`): the forms of the text come after those of the script, and a refusal of the
text stays the same, with its position counted from the start of the script.

Two facts carry this. Outside of all lists the finished forms play no part in how the reader goes
on (`State.run_after`), and neither does the position. And where a script may end, a line feed brings
the reader to a state that differs from the first one in the finished forms only
(`State.step_lineFeed_of_done`): it ends an atom and a comment, and is a blank otherwise.
-/

namespace HostScript.Reader

/-- The number of bytes of a text is the size of its encoding. -/
theorem byteLength_toList (text : String) : byteLength text.toList = text.utf8ByteSize := by
  have hchars : ∀ cs : List Char, byteLength cs = (String.ofList cs).utf8ByteSize := by
    intro cs
    induction cs with
    | nil => rfl
    | cons c cs ih =>
      rw [byteLength_cons, ih, ← List.singleton_append, String.ofList_append,
        String.utf8ByteSize_append, ← String.singleton_eq_ofList, String.utf8ByteSize_singleton]
  rw [hchars, String.ofList_toList]

namespace State

/-! ## Forms that were read before -/

/-- The state where further forms, latest first, were finished before. -/
def after (before : List Expr) (s : State) : State := { s with forms := s.forms ++ before }

section

variable (before : List Expr)

@[simp] theorem after_mode (s : State) : (s.after before).mode = s.mode := rfl

@[simp] theorem after_stack (s : State) : (s.after before).stack = s.stack := rfl

@[simp] theorem after_forms (s : State) : (s.after before).forms = s.forms ++ before := rfl

theorem deliver_after (forms : List Expr) (stack : List Frame) (e : Expr) :
    deliver (forms ++ before) stack e = (deliver forms stack e).after before := by
  induction stack generalizing e with
  | nil => rfl
  | cons frame stack ih =>
    cases frame with
    | list items => rfl
    | quotation => exact ih e.quotation

theorem finish_after (s : State) (e : Expr) :
    (s.after before).finish e = (s.finish e).after before := deliver_after before s.forms s.stack e

theorem openForm_after (s : State) (c : Char) :
    (s.after before).openForm c = (s.openForm c).map (after before) := by
  unfold openForm
  rw [after_stack]
  repeat' split
  all_goals rfl

theorem close_after (s : State) :
    (s.after before).close = s.close.map (after before) := by
  unfold close
  rw [after_stack, after_forms]
  split
  · rw [deliver_after]
    rfl
  · split <;> rfl
  · rfl

theorem stepBetween_after (s : State) (c : Char) :
    (s.after before).stepBetween c = (s.stepBetween c).map (after before) := by
  unfold stepBetween
  rw [close_after, openForm_after]
  repeat' split
  all_goals rfl

/-- **No step depends on the forms that were read before.** -/
theorem step_after (s : State) (c : Char) :
    (s.after before).step c = (s.step c).map (after before) := by
  unfold step
  rw [after_mode]
  split
  · exact stepBetween_after before s c
  · split <;> rfl
  · split
    · rw [finish_after]
      exact stepBetween_after before _ c
    · rfl
  · rw [finish_after]
    repeat' split
    all_goals rfl
  · rfl

/-- **No run depends on the forms that were read before or on the position at which it begins.** -/
theorem run_after (s : State) (position shift : Nat) (cs : List Char) :
    (s.after before).run (position + shift) cs =
      match s.run position cs with
      | .ok t => .ok (t.after before)
      | .error e => .error ⟨e.position + shift, e.fault⟩ := by
  induction cs generalizing s position with
  | nil => rfl
  | cons c cs ih =>
    rw [run, run, step_after]
    cases s.step c with
    | error fault => rfl
    | ok t =>
      simp only [Except.map, Nat.add_right_comm position shift]
      exact ih t (position + c.utf8Size)

theorem closed_after (s : State) :
    (s.after before).closed = s.closed.map (before.reverse ++ ·) := by
  unfold closed
  rw [after_stack, after_forms, List.reverse_append]
  split <;> rfl

theorem done_after (s : State) : (s.after before).done = s.done.map (before.reverse ++ ·) := by
  unfold done
  rw [after_mode]
  split
  · exact closed_after before s
  · exact closed_after before s
  · rw [finish_after]
    exact closed_after before _
  · rfl
  · rfl

end

/-! ## The end of a script -/

/-- Where nothing is open, all that matters are the finished forms. -/
theorem eq_of_closed {s : State} {forms : List Expr} (h : s.closed = .ok forms) :
    s.stack = [] ∧ s.forms = forms.reverse := by
  unfold closed at h
  split at h
  · next hstack =>
    rw [← Except.ok.inj h, List.reverse_reverse]
    exact ⟨hstack, rfl⟩
  all_goals cases h

theorem stepBetween_lineFeed {s : State} {forms : List Expr} (h : s.closed = .ok forms) :
    s.stepBetween '\n' = .ok { forms := forms.reverse } := by
  obtain ⟨hstack, hforms⟩ := eq_of_closed h
  have hblank : Text.isBlank '\n' = true := by decide
  rw [stepBetween, if_pos hblank, hstack, hforms]

/-- **Where a script may end, a line feed leaves nothing but its forms.** -/
theorem step_lineFeed_of_done {s : State} {forms : List Expr} (h : s.done = .ok forms) :
    s.step '\n' = .ok { forms := forms.reverse } := by
  cases hmode : s.mode with
  | between =>
    simp only [done, hmode] at h
    simp only [step, hmode]
    exact stepBetween_lineFeed h
  | comment =>
    simp only [done, hmode] at h
    obtain ⟨hstack, hforms⟩ := eq_of_closed h
    simp only [step, hmode, if_true, hstack, hforms]
  | atom read =>
    -- The line feed ends the atom, as the end of the script does.
    have hdelimiter : isDelimiter '\n' = true := by decide
    simp only [done, hmode] at h
    simp only [step, hmode, hdelimiter, if_true]
    exact stepBetween_lineFeed h
  | text read => simp [done, hmode] at h
  | escape read => simp [done, hmode] at h

end State

/-! ## Two texts -/

/-- What is read of a text, with the state in which its last character leaves the reader. -/
theorem exists_run_of_readForms {source : String} {forms : List Expr}
    (h : readForms source = .ok forms) :
    ∃ s : State, ({} : State).run 0 source.toList = .ok s ∧ s.done = .ok forms := by
  unfold readForms formsOfChars at h
  split at h
  · cases h
  · next s hrun =>
    split at h
    · next hdone => exact ⟨s, hrun, by rw [hdone, Except.ok.inj h]⟩
    · cases h

/-- **Reading is compositional.** A text that follows a script, after a line feed, is read as it is
by itself: its forms come after the forms of the script, and where it is refused, it is refused for
the same reason, as many bytes later as stand before it. -/
theorem readForms_append {source : String} {forms : List Expr} (h : readForms source = .ok forms)
    (text : String) :
    readForms (source ++ "\n" ++ text) =
      match readForms text with
      | .ok further => .ok (forms ++ further)
      | .error e => .error ⟨e.position + (source.utf8ByteSize + 1), e.fault⟩ := by
  obtain ⟨s, hrun, hdone⟩ := exists_run_of_readForms h
  have hchars : (source ++ "\n" ++ text).toList = source.toList ++ '\n' :: text.toList := by
    simp
  have hsize : byteLength source.toList + '\n'.utf8Size = source.utf8ByteSize + 1 := by
    rw [byteLength_toList]
    rfl
  have hstart : ({ forms := forms.reverse } : State) = ({} : State).after forms.reverse := rfl
  -- The line feed leads to a state from which the text is read as from the first one.
  have hwhole : ({} : State).run 0 (source ++ "\n" ++ text).toList =
      match ({} : State).run 0 text.toList with
      | .ok t => .ok (t.after forms.reverse)
      | .error e => .error ⟨e.position + (source.utf8ByteSize + 1), e.fault⟩ := by
    rw [hchars, State.run_append, hrun]
    simp only [State.run, State.step_lineFeed_of_done hdone]
    rw [Nat.add_assoc, hsize, hstart]
    exact State.run_after forms.reverse {} 0 (source.utf8ByteSize + 1) text.toList
  have hbytes : byteLength (source ++ "\n" ++ text).toList =
      byteLength text.toList + (source.utf8ByteSize + 1) := by
    rw [hchars, byteLength_append, byteLength_cons, ← Nat.add_assoc, hsize, Nat.add_comm]
  unfold readForms formsOfChars
  rw [hwhole, hbytes]
  cases ({} : State).run 0 text.toList with
  | error e => rfl
  | ok t =>
    simp only [State.done_after, List.reverse_reverse]
    cases t.done <;> rfl

/-- The script `'é ;c`, which ends inside a comment and takes six bytes, and a text that is refused
at its first byte. -/
theorem readForms_append_comment :
    let source := String.ofList ['\'', 'é', ' ', ';', 'c']
    let forms := [Expr.quotation (.symbol (String.ofList ['é']))]
    readForms source = .ok forms ∧
      readForms (source ++ "\n" ++ String.ofList [')']) = .error ⟨7, .unexpectedClose⟩ := by
  intro source forms
  have hsource : readForms source = .ok forms := by
    rw [readForms, String.toList_ofList]
    rfl
  have htext : readForms (String.ofList [')']) = .error ⟨0, .unexpectedClose⟩ := by
    rw [readForms, String.toList_ofList]
    rfl
  refine ⟨hsource, ?_⟩
  rw [readForms_append hsource, htext, ← byteLength_toList, String.toList_ofList]
  rfl

end HostScript.Reader
