import HostScript.Proofs.Reader.Agreement
import HostScript.Proofs.Reader.Concatenation

/-!
# Why and where a script is refused

There are six ways to be refused (`readForms_refused`). Four belong to the end of the script, where
something is still open. The other two belong to a character in the place of a form: a closing
parenthesis, or any character with too many lists and quotations around it. The reader has not
looked further then, so whatever else stands after that character is refused alike.

That a character stands in the place of a form is a statement about the tokens before it
(`FormAt`), and comes from what the state of the reader says of them.
-/

namespace HostScript.Reader

/-- The reasons that belong to the end of a script. -/
theorem LeavesOpen.message_mem {cs : List Char} {fault : Fault} (h : LeavesOpen cs fault) :
    fault.message ∈ ["unterminated list", "unterminated string", "unterminated escape in string",
      "nothing to quote"] := by
  cases h <;> simp [Fault.message]

/-- A script is refused at its end or at one of its characters, after those before were taken. -/
theorem refused_cases {source : String} {e : ParseError} (h : readForms source = .error e) :
    (∃ s : State, ({} : State).run 0 source.toList = .ok s ∧ s.done = .error e.fault ∧
        e.position = source.utf8ByteSize) ∨
      ∃ before c rest t, source.toList = before ++ c :: rest ∧
        ({} : State).run 0 before = .ok t ∧ t.step c = .error e.fault ∧
        e.position = byteLength before := by
  unfold readForms formsOfChars at h
  split at h
  · next e' hrun =>
    obtain rfl := Except.error.inj h
    obtain ⟨before, c, rest, t, hsource, hbefore, hfault, hposition⟩ := exists_of_run_eq_error hrun
    exact Or.inr ⟨before, c, rest, t, hsource, hbefore, hfault, by rw [hposition, Nat.zero_add]⟩
  · next s hrun =>
    split at h
    · cases h
    · next fault hdone =>
      obtain rfl := Except.error.inj h
      exact Or.inl ⟨s, hrun, hdone, byteLength_toList source⟩

/-- A character that is refused is refused whatever comes after it. -/
theorem readForms_of_step_eq_error {before : List Char} {c : Char} {t : State} {fault : Fault}
    (hrun : ({} : State).run 0 before = .ok t) (hc : t.step c = .error fault) (rest : List Char) :
    readForms (String.ofList (before ++ c :: rest)) = .error ⟨byteLength before, fault⟩ := by
  rw [readForms, String.toList_ofList, formsOfChars, State.run_append, hrun]
  simp only [State.run, hc, Nat.zero_add]

/-- The bytes of a first part of a text end at the boundary of a character. -/
theorem isValid_byteLength {text : String} {as bs : List Char} (h : text.toList = as ++ bs) :
    String.Pos.Raw.IsValid text ⟨byteLength as⟩ := by
  refine String.Pos.Raw.isValid_iff_exists_append.mpr ⟨String.ofList as, String.ofList bs, ?_, ?_⟩
  · rw [← String.ofList_append, ← h, String.ofList_toList]
  · rw [String.rawEndPos, ← byteLength_toList, String.toList_ofList]

/-- **A script that is refused is refused for one of six reasons: at its end, where a list, a text,
an escape or a quotation is still open, or at a character in the place of a form, which has 1000
lists and quotations open around it, or fewer and is a closing parenthesis. The position is always
the boundary of a character. A refusal at a character depends on nothing that comes after it. A
descent gives the same refusal, so it never gives one of its own.** -/
theorem readForms_refused {source : String} {e : ParseError} (h : readForms source = .error e) :
    ((e.message ∈ ["unterminated list", "unterminated string", "unterminated escape in string",
          "nothing to quote"] ∧
        e.position = source.utf8ByteSize ∧ LeavesOpen source.toList e.fault) ∨
      ∃ before c rest stack, source.toList = before ++ c :: rest ∧
        e.position = byteLength before ∧ FormAt before c stack ∧
        ((e.message = "unexpected ')'" ∧ c = ')' ∧ stack.length < 1000) ∨
          (e.message = "nesting too deep" ∧ Text.isBlank c = false ∧ c ≠ ';' ∧
            stack.length = 1000)) ∧
        ∀ other, readForms (String.ofList (before ++ c :: other)) = .error e) ∧
    String.Pos.Raw.IsValid source ⟨e.position⟩ ∧
    ∃ refusal, Descent.readForms source = .error (refusal, e.position) ∧
      refusal.message = e.message ∧ refusal ≠ .unexpectedEnd ∧ refusal ≠ .expectedAtom ∧
      ∀ c, refusal ≠ .expected c := by
  have hdescent : Descent.readForms source = .error (.fault e.fault, e.position) := by
    rw [Descent.readForms_eq, h]
    rfl
  obtain ⟨position, fault⟩ := e
  suffices hplace : _ ∧ String.Pos.Raw.IsValid source ⟨position⟩ from
    ⟨hplace.1, hplace.2, .fault fault, hdescent, rfl, by simp, by simp, by simp⟩
  rcases refused_cases h with
    ⟨s, hrun, hdone, hposition⟩ | ⟨before, c, rest, t, hsource, hrun, hstep, hposition⟩
  · simp only at hdone hposition
    obtain ⟨ts, hreached⟩ := reached_nil.run hrun
    have hopen : LeavesOpen source.toList fault := hreached.leavesOpen hdone
    refine ⟨Or.inl ⟨hopen.message_mem, hposition, hopen⟩, ?_⟩
    rw [hposition, ← byteLength_toList]
    exact isValid_byteLength (List.append_nil _).symm
  · simp only at hstep hposition
    subst hposition
    refine ⟨Or.inr ?_, isValid_byteLength hsource⟩
    have hother := readForms_of_step_eq_error hrun hstep
    obtain ⟨ts, hreached⟩ := reached_nil.run hrun
    have hrefuses := hreached.takes c
    rw [hstep] at hrefuses
    cases hrefuses with
    | unexpectedClose hform hroom hc =>
      exact ⟨before, c, rest, _, hsource, rfl, hform, Or.inl ⟨rfl, hc, hroom⟩, hother⟩
    | tooDeep hform hfull =>
      refine ⟨before, c, rest, _, hsource, rfl, hform, Or.inr ⟨rfl, ?_, ?_, hfull⟩, hother⟩
      · exact hform.atForm.not_blank
      · exact hform.atForm.not_comment

/-- The script `(é ')`, refused at its last byte, and every script that begins with it. -/
theorem readForms_refused_close :
    let source := String.ofList ['(', 'é', ' ', '\'', ')']
    readForms source = .error ⟨5, .unexpectedClose⟩ ∧
      ∃ before c rest, source.toList = before ++ c :: rest ∧ byteLength before = 5 ∧ c = ')' ∧
        ∀ other, readForms (String.ofList (before ++ c :: other)) =
          .error ⟨5, .unexpectedClose⟩ := by
  intro source
  have hsource : readForms source = .error ⟨5, .unexpectedClose⟩ := by
    rw [readForms, String.toList_ofList]
    rfl
  refine ⟨hsource, ?_⟩
  rcases (readForms_refused hsource).1 with
    ⟨hend, -⟩ | ⟨before, c, rest, stack, hchars, hposition, -, hreason, hother⟩
  · simp [ParseError.message, Fault.message] at hend
  · rcases hreason with ⟨-, hc, -⟩ | ⟨hdeep, -⟩
    · exact ⟨before, c, rest, hchars, hposition.symm, hc, hother⟩
    · simp [ParseError.message, Fault.message] at hdeep

end HostScript.Reader
