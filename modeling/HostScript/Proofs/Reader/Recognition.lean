import HostScript.Proofs.Expr.Nesting
import HostScript.Proofs.Reader.Tokens

/-!
# The reader recognises the grammar

`readForms_eq_ok_iff_reads`: a script is read exactly if the grammar has trees for it that are
nested no deeper than 1000, and then into these trees.

* Soundness: the tokens taken so far make up the open frames and the finished forms (`Pending`),
  and every token keeps that so. At the end no frame is open.
* Completeness: on the tokens of a form the reader finishes the form, whatever stands around it
  (`Form.formsOfTokens?_append`).

How many forms stand beside each other plays no part in either: the limit is on each tree by itself.
-/

namespace HostScript.Reader

open State

theorem nesting_atom (cs : List Char) : (atom cs).nesting = 1 := by
  unfold atom
  split
  · simp only [Expr.nesting]
  · split <;> simp only [Expr.nesting]

/-! ## Soundness -/

/-- `Pending ts stack forms` says that the tokens `ts` make up the finished forms and the open
frames, the innermost of which comes first, and that nothing in them is nested too deep. -/
inductive Pending : List Token → List Frame → List Expr → Prop
  | nothing {ts : List Token} {forms : List Expr} :
    Forms ts forms.reverse → (∀ f ∈ forms, f.nesting ≤ depthLimit) → Pending ts [] forms
  | list {ts us : List Token} {stack : List Frame} {forms items : List Expr} :
    Pending ts stack forms → Forms us items.reverse → stack.length < depthLimit →
    (∀ e ∈ items, stack.length + 1 + e.nesting ≤ depthLimit) →
    Pending (ts ++ .openList :: us) (.list items :: stack) forms
  | quotation {ts : List Token} {stack : List Frame} {forms : List Expr} :
    Pending ts stack forms → Pending (ts ++ [.quoteMark]) (.quotation :: stack) forms

/-- The tokens of a finished form are added to those taken before. -/
theorem Pending.deliver {ts us : List Token} {stack : List Frame} {forms : List Expr}
    (h : Pending ts stack forms) {e : Expr} (he : Form us e)
    (hn : stack.length + e.nesting ≤ depthLimit) :
    Pending (ts ++ us) (deliver forms stack e).stack (deliver forms stack e).forms := by
  induction h generalizing us e with
  | @nothing ts forms hts hforms =>
    refine .nothing ?_ ?_
    · show Forms (ts ++ us) (e :: forms).reverse
      rw [List.reverse_cons]
      exact hts.append (.singleton he)
    · intro f hf
      rcases List.mem_cons.mp hf with rfl | hf
      · simpa using hn
      · exact hforms f hf
  | @list ts vs stack forms items hts hvs hroom hitems =>
    rw [List.append_assoc, List.cons_append]
    refine .list hts ?_ hroom ?_
    · rw [List.reverse_cons]
      exact hvs.append (.singleton he)
    · intro f hf
      rcases List.mem_cons.mp hf with rfl | hf
      · simpa using hn
      · exact hitems f hf
  -- The form finishes the quotation, which is delivered to the frame around it in turn.
  | @quotation ts stack forms hts ih =>
    rw [List.append_assoc, List.singleton_append]
    refine ih (.quotation he) ?_
    show stack.length + e.quotation.nesting ≤ depthLimit
    rw [List.length_cons] at hn
    rw [Expr.nesting_quotation]
    omega

/-- A closing parenthesis finishes the list that is open. -/
theorem Pending.close {ts : List Token} {s t : State} (h : Pending ts s.stack s.forms)
    (hc : s.close = .ok t) : Pending (ts ++ [.closeList]) t.stack t.forms := by
  unfold State.close at hc
  split at hc
  · next items stack hs =>
    rw [hs] at h
    rw [← Except.ok.inj hc]
    cases h with
    | @list ts us _ _ _ hts hus hroom hitems =>
      rw [List.append_assoc, List.cons_append]
      refine hts.deliver (.list hus) ?_
      have : Expr.nestingAll items.reverse ≤ depthLimit - (stack.length + 1) :=
        Expr.nestingAll_le_iff.mpr fun e he => by
          have := hitems e (List.mem_reverse.mp he)
          omega
      rw [Expr.nesting_list]
      omega
  · split at hc <;> simp at hc
  · simp at hc

/-- **Every token keeps the frames made up of the tokens taken.** -/
theorem Pending.take {ts : List Token} {s t : State} (h : Pending ts s.stack s.forms)
    {token : Token} (ht : s.take token = some t) : Pending (ts ++ [token]) t.stack t.forms := by
  cases token with
  | closeList =>
    cases hc : s.close with
    | error fault => simp [State.take, hc, Except.toOption] at ht
    | ok u =>
      simp only [State.take, hc, Except.toOption, Option.some.injEq] at ht
      exact ht ▸ h.close hc
  | openList =>
    simp only [State.take, Option.ite_none_right_eq_some, Option.some.injEq] at ht
    obtain ⟨hroom, rfl⟩ := ht
    exact .list h .nil hroom (by simp)
  | quoteMark =>
    simp only [State.take, Option.ite_none_right_eq_some, Option.some.injEq] at ht
    obtain ⟨hroom, rfl⟩ := ht
    exact .quotation h
  | text content =>
    simp only [State.take, Option.ite_none_right_eq_some, Option.some.injEq] at ht
    obtain ⟨hroom, rfl⟩ := ht
    exact h.deliver (.text content) hroom
  | word w =>
    simp only [State.take, Option.ite_none_right_eq_some, Option.some.injEq] at ht
    obtain ⟨hroom, rfl⟩ := ht
    refine h.deliver (.atom w) ?_
    rw [nesting_atom]
    exact hroom

/-- **What is read of tokens, the grammar gives, and it is not nested too deep.** -/
theorem Pending.forms {us : List Token} {s : State} {forms : List Expr}
    (h : s.formsOfTokens? us = some forms) :
    ∀ {ts : List Token}, Pending ts s.stack s.forms →
      Forms (ts ++ us) forms ∧ ∀ f ∈ forms, f.nesting ≤ depthLimit := by
  induction us generalizing s with
  | nil =>
    intro ts hp
    simp only [formsOfTokens?, closed] at h
    split at h
    · next hs =>
      rw [hs] at hp
      cases hp with
      | nothing hts hforms =>
        simp only [Except.toOption, Option.some.injEq] at h
        subst h
        rw [List.append_nil]
        exact ⟨hts, fun f hf => hforms f (List.mem_reverse.mp hf)⟩
    all_goals simp [Except.toOption] at h
  | cons t us ih =>
    intro ts hp
    rw [formsOfTokens?, Option.bind_eq_some_iff] at h
    obtain ⟨u, ht, hu⟩ := h
    rw [← List.singleton_append, ← List.append_assoc]
    exact ih hu (hp.take ht)

/-! ## Completeness -/

/-- Whether a form that is finished now stays an item of a list or a form of the script, and does
not finish a quotation. -/
def State.Collects (s : State) : Prop := ∀ stack, s.stack ≠ .quotation :: stack

theorem State.Collects.finish {s : State} (h : s.Collects) (e : Expr) :
    (s.finish e).Collects ∧ (s.finish e).stack.length = s.stack.length := by
  obtain ⟨mode, stack, forms⟩ := s
  match stack with
  | [] => exact ⟨by simp [Collects, State.finish, deliver], rfl⟩
  | .list items :: stack => exact ⟨by simp [Collects, State.finish, deliver], rfl⟩
  | .quotation :: stack => exact absurd rfl (h stack)

/-- Items one after the other are put into the list that is open. -/
theorem foldl_finish_list (items : List Expr) (stack : List Frame) (forms es : List Expr) :
    es.foldl State.finish ({ stack := .list items :: stack, forms } : State) =
      { stack := .list (es.reverse ++ items) :: stack, forms } := by
  induction es generalizing items with
  | nil => rfl
  | cons e es ih =>
    rw [List.foldl_cons, State.finish, deliver, ih]
    simp

/-- Outside of all lists they are put beside the forms of the script. -/
theorem foldl_finish_forms (forms es : List Expr) :
    es.foldl State.finish ({ forms } : State) = { forms := es.reverse ++ forms } := by
  induction es generalizing forms with
  | nil => rfl
  | cons e es ih =>
    rw [List.foldl_cons, State.finish, deliver, ih]
    simp

/-- There is room for a form that is not nested too deep where it stands. -/
theorem State.hasRoom_of_le {s : State} {e : Expr} (h : s.stack.length + e.nesting ≤ depthLimit) :
    s.HasRoom := by
  have := e.nesting_pos
  unfold State.HasRoom
  omega

mutual

/-- **On the tokens of a form the reader finishes the form.** -/
theorem Form.formsOfTokens?_append : ∀ {ts : List Token} {e : Expr}, Form ts e →
    ∀ {s : State}, s.mode = .between → s.stack.length + e.nesting ≤ depthLimit →
      ∀ us, s.formsOfTokens? (ts ++ us) = (s.finish e).formsOfTokens? us
  | _, _, .word w he, s, _, hn, us => by
    rw [← he.atom_eq, List.singleton_append, formsOfTokens?, State.take, if_pos (hasRoom_of_le hn)]
    rfl
  | _, _, .text content, s, _, hn, us => by
    rw [List.singleton_append, formsOfTokens?, State.take, if_pos (hasRoom_of_le hn)]
    rfl
  | _, _, @Form.list ts items h, ⟨mode, stack, forms⟩, hs, hn, us => by
    have hroom := hasRoom_of_le hn
    rw [Expr.nesting_list] at hn
    have hitems : ∀ e ∈ items, (Frame.list [] :: stack).length + e.nesting ≤ depthLimit := by
      intro e he
      have := Expr.nestingAll_le_iff.mp (Nat.le_refl _) e he
      rw [List.length_cons]
      simp only at hn
      omega
    obtain rfl : mode = .between := hs
    -- The opening parenthesis is taken, then the items, and then the closing one.
    rw [List.append_assoc, List.cons_append, formsOfTokens?, State.take, if_pos hroom,
      Option.bind_some, h.formsOfTokens?_append rfl (by simp [Collects]) hitems,
      foldl_finish_list, List.singleton_append, formsOfTokens?]
    simp [State.take, State.close, Except.toOption, State.finish]
  | _, _, @Form.quotation ts e h, s, hs, hn, us => by
    have hroom := hasRoom_of_le hn
    have hn : s.stack.length + e.quotation.nesting ≤ depthLimit := hn
    rw [Expr.nesting_quotation] at hn
    rw [List.cons_append, formsOfTokens?, State.take, if_pos hroom, Option.bind_some,
      h.formsOfTokens?_append (by exact hs) (by rw [List.length_cons]; omega)]
    rfl

/-- **On the tokens of several forms the reader finishes one after the other.** -/
theorem Forms.formsOfTokens?_append : ∀ {ts : List Token} {es : List Expr}, Forms ts es →
    ∀ {s : State}, s.mode = .between → s.Collects →
      (∀ e ∈ es, s.stack.length + e.nesting ≤ depthLimit) →
      ∀ us, s.formsOfTokens? (ts ++ us) = (es.foldl State.finish s).formsOfTokens? us
  | _, _, .nil, s, _, _, _, us => rfl
  | _, _, @Forms.cons _ _ e _ he hes, s, hs, hc, hn, us => by
    obtain ⟨hc', hlength⟩ := hc.finish e
    rw [List.append_assoc, he.formsOfTokens?_append hs (hn e List.mem_cons_self),
      hes.formsOfTokens?_append (finish_mode s e) hc' (fun f hf => by
        rw [hlength]
        exact hn f (List.mem_cons_of_mem e hf)), List.foldl_cons]

end

/-! ## Recognition -/

/-- **The tokens of a script are read exactly as the grammar says.** -/
theorem formsOfTokens?_eq_some_iff {ts : List Token} {forms : List Expr} :
    ({} : State).formsOfTokens? ts = some forms ↔
      Forms ts forms ∧ ∀ f ∈ forms, f.nesting ≤ depthLimit := by
  constructor
  · intro h
    exact Pending.forms h (@Pending.nothing [] [] .nil (by simp))
  · rintro ⟨h, hn⟩
    have hread := h.formsOfTokens?_append (s := ({} : State)) rfl (by simp [Collects])
      (by simpa using hn) []
    rw [List.append_nil, foldl_finish_forms] at hread
    rw [hread]
    simp [formsOfTokens?, closed, Except.toOption]

/-- A script is read exactly as the grammar says, up to the limit on nesting. -/
theorem readForms_eq_ok_iff {source : String} {forms : List Expr} :
    readForms source = .ok forms ↔
      Reads source.toList forms ∧ ∀ f ∈ forms, f.nesting ≤ depthLimit := by
  rw [readForms_eq_ok_iff_forms?]
  constructor
  · intro h
    rcases lexes_or_forms?_eq_none source.toList with ⟨ts, hts⟩ | hnone
    · rw [forms?_of_lexes hts rfl, formsOfTokens?_eq_some_iff] at h
      exact ⟨⟨ts, hts, h.1⟩, h.2⟩
    · rw [hnone {} rfl] at h
      cases h
  · rintro ⟨⟨ts, hts, h⟩, hn⟩
    rw [forms?_of_lexes hts rfl, formsOfTokens?_eq_some_iff]
    exact ⟨h, hn⟩

/-- **A script is read exactly if the grammar has trees for it that are not nested too deep, and
then into these trees. Every other script is refused. How many forms stand side by side does not
count: a list is within a limit if each of its items is within the limit less one.** -/
theorem readForms_eq_ok_iff_reads (source : String) :
    (∀ forms, readForms source = .ok forms ↔
      Reads source.toList forms ∧ ∀ f ∈ forms, f.nesting ≤ 1000) ∧
    ((∃ e, readForms source = .error e) ↔
      ¬ ∃ forms, Reads source.toList forms ∧ ∀ f ∈ forms, f.nesting ≤ 1000) ∧
    ∀ (items : List Expr) (n : Nat),
      (Expr.list items).nesting ≤ n + 1 ↔ ∀ e ∈ items, e.nesting ≤ n := by
  have hiff : ∀ forms, readForms source = .ok forms ↔
      Reads source.toList forms ∧ ∀ f ∈ forms, f.nesting ≤ 1000 :=
    fun _ => readForms_eq_ok_iff
  refine ⟨hiff, ?_, fun items n => ?_⟩
  · simp only [← hiff]
    cases readForms source <;> simp
  · rw [Expr.nesting_list, Nat.add_le_add_iff_right, Expr.nestingAll_le_iff]

end HostScript.Reader
