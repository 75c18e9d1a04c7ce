import HostScript.Proofs.Reader.Agreement
import HostScript.Proofs.Reader.Concatenation

/-!
# Literals of a text

However the characters of a text are written between double quotes, the text is what is read
(`readForms_literal`), and what comes after the closing quote is read as it is by itself.

Inside the quotes one lemma follows the literal (`State.run_literal`). After them the reader is
where it began, but for the finished form, and that plays no part in how it goes on
(`State.outcome_after`).
-/

namespace HostScript.Reader

namespace State

/-- Inside a text the reader collects what the literal stands for. -/
theorem run_literal (s : State) {body content : List Char} (h : Text.Literal body content)
    (read : List Char) (position : Nat) :
    ({ s with mode := .text read } : State).run position body =
      .ok { s with mode := .text (content.reverse ++ read) } := by
  induction h generalizing read position with
  | nil => rfl
  | plain hquote hescape _ ih =>
    simp only [run, step, if_neg hquote, if_neg hescape]
    rw [ih, List.reverse_cons, List.append_assoc, List.singleton_append]
  | @escape c meant _ _ hc _ ih =>
    simp only [run, step, Char.reduceEq, if_true, if_false]
    rw [ih, hc.eq_unescape, List.reverse_append, Text.unescape_reverse, List.append_assoc]

/-- A literal is read as its text, up to the quote that closes it. -/
theorem run_quotedLiteral {body content : List Char} (h : Text.Literal body content) :
    ({} : State).run 0 ('"' :: body ++ ['"']) = .ok { forms := [.text (String.ofList content)] } := by
  have hopen : ({} : State).step '"' = .ok { ({} : State) with mode := .text [] } := rfl
  rw [List.cons_append, run, hopen]
  simp only
  rw [run_append, run_literal {} h]
  simp [run, step, finish, deliver]

theorem outcome_append {s t : State} {position : Nat} {cs : List Char}
    (h : s.run position cs = .ok t) (rest : List Char) :
    s.outcome position (cs ++ rest) = t.outcome (position + byteLength cs) rest := by
  rw [outcome_eq_run, outcome_eq_run, run_append, h, byteLength_append, ← Nat.add_assoc]

/-- **What is made of the rest of a script does not depend on the forms that were read before, nor
on the position at which the rest begins.** -/
theorem outcome_after (before : List Expr) (s : State) (position shift : Nat) (cs : List Char) :
    (s.after before).outcome (position + shift) cs =
      match s.outcome position cs with
      | .ok forms => .ok (before.reverse ++ forms)
      | .error e => .error ⟨e.position + shift, e.fault⟩ := by
  rw [outcome_eq_run, outcome_eq_run, run_after]
  cases s.run position cs with
  | error e => rfl
  | ok t =>
    simp only [done_after, Nat.add_right_comm position shift]
    cases t.done <;> rfl

end State

/-- **The reader undoes every way to write a text. A text has a literal, and each of its literals,
with any of its characters escaped and with line ends put between them behind a backslash, is read
as this text and nothing else. What comes after the closing quote is read, or refused, as it is by
itself.** -/
theorem readForms_literal (content : String) :
    (∃ body, Text.Literal body content.toList) ∧
    ∀ body, Text.Literal body content.toList →
      let literal := String.ofList ('"' :: body ++ ['"'])
      readForms literal = .ok [.text content] ∧
      ∀ text, readForms (literal ++ text) =
        match readForms text with
        | .ok forms => .ok (.text content :: forms)
        | .error e => .error ⟨e.position + literal.utf8ByteSize, e.fault⟩ := by
  refine ⟨Text.exists_literal content.toList, fun body h => ?_⟩
  intro literal
  have hliteral : literal.toList = '"' :: body ++ ['"'] := String.toList_ofList
  have hrun : ({} : State).run 0 literal.toList = .ok (({} : State).after [.text content]) := by
    rw [hliteral, State.run_quotedLiteral h, String.ofList_toList]
    rfl
  have happend : ∀ text, readForms (literal ++ text) =
      match readForms text with
      | .ok forms => .ok (.text content :: forms)
      | .error e => .error ⟨e.position + literal.utf8ByteSize, e.fault⟩ := by
    intro text
    rw [readForms, String.toList_append, State.formsOfChars_eq_outcome, State.outcome_append hrun,
      State.outcome_after, byteLength_toList, ← State.formsOfChars_eq_outcome]
    rfl
  refine ⟨?_, happend⟩
  have hempty := happend ""
  rwa [String.append_empty] at hempty

/-- The text of `é`, a line feed and a double quote, with the first one escaped although it need not
be and a line end after it, before a list that is closed once too often. -/
theorem readForms_literal_mixed :
    let content := String.ofList ['é', '\n', '"']
    let body := ['\\', 'é', '\\', '\n', '\\', 'n', '\\', '"']
    let literal := String.ofList ('"' :: body ++ ['"'])
    Text.Literal body content.toList ∧ readForms literal = .ok [.text content] ∧
      readForms (literal ++ String.ofList ['(', ')', ')']) = .error ⟨13, .unexpectedClose⟩ := by
  intro content body literal
  have hbody : Text.Literal body content.toList := by
    rw [String.toList_ofList]
    exact .escape (.self (by decide)) (.escape .lineEnd (.escape .lineFeed
      (.escape (.self (by decide)) .nil)))
  obtain ⟨hliteral, happend⟩ := (readForms_literal content).2 body hbody
  refine ⟨hbody, hliteral, ?_⟩
  have hrest : readForms (String.ofList ['(', ')', ')']) = .error ⟨2, .unexpectedClose⟩ := by
    rw [readForms, String.toList_ofList]
    rfl
  rw [happend, hrest, ← byteLength_toList, String.toList_ofList]
  rfl

end HostScript.Reader
