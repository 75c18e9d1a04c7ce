import HostScript.Proofs.Evaluation.Quotation
import HostScript.Proofs.Text.Unbroken

/-!
# Results on one line

Where all definitions and a form are written unbroken, the result of the form is written unbroken
(`Session.OneLine.evalForm`), and so it stays for the forms after it. Whatever comes from elsewhere,
such as a path or the wording of a failure of the host, is text and is written between quotes. All
else that a value or a report holds is a number, a name that the form itself holds, or one of the
names that are fixed.
-/

namespace HostScript

variable {σ : Type}

open Evaluation Interpreter Text

/-! ## Values and reports -/

namespace Value

theorem unbroken_int (value : Int64) : Unbroken (int value).chars := by
  rw [chars, charsAt]
  exact Integer.unbroken_chars _

theorem unbroken_text (content : String) : Unbroken (text content).chars := by
  rw [chars, charsAt]
  exact unbroken_quote _

theorem unbroken_symbol {name : String} (h : Unbroken name.toList) :
    Unbroken (symbol name).chars := by
  rw [chars, charsAt]
  exact h

theorem unbroken_primitive (p : Primitive) : Unbroken (primitive p.descriptor.name).chars := by
  cases p <;> decide

theorem unbroken_ofExpr {e : Expr} (h : Unbroken e.chars) : Unbroken (ofExpr e).chars := by
  rw [chars, charsAt_ofExpr]
  exact h

end Value

theorem Expr.IsLiteral.unbroken {e : Expr} (h : e.IsLiteral) : Unbroken e.chars := by
  cases h with
  | int value =>
    rw [chars]
    exact Integer.unbroken_chars _
  | dec value =>
    rw [chars]
    exact value.unbroken_chars
  | text content =>
    rw [chars]
    exact unbroken_quote _
  | nil => exact Expr.unbroken_list_iff.mpr (by simp)

theorem Primitive.Answer.unbroken {v : Value} (h : Answer v) : Unbroken v.chars := by
  cases h with
  | void => decide
  | text content => exact Value.unbroken_text content
  | int value => exact Value.unbroken_int value
  | signaled command signal =>
    have hcommand : Unbroken (Value.charsAt .alone (.text command)) := Value.unbroken_text command
    have hsignal : Unbroken (Value.charsAt .alone (.int signal)) := Value.unbroken_int signal
    rw [Value.chars, Value.charsAt, Value.fieldsChars, Value.fieldsChars, Value.fieldsChars]
    simp [Value.Place.dot, hcommand, hsignal]

/-- All data of the report are written unbroken. -/
def Signal.OneLine (e : Signal) : Prop := ∀ v ∈ e.data, Unbroken v.chars

namespace Signal

theorem unbroken_symbol (e : Signal) : Unbroken e.symbol.toList := by
  cases e with
  | hostFailure action error target =>
    rw [symbol]
    cases error.kind <;> decide
  | _ =>
    rw [symbol]
    decide

theorem oneLine_wrongNumberOfArguments (b : Builtin) (count : Nat) :
    (wrongNumberOfArguments b.name count).OneLine := by
  have hname : Unbroken b.name.toList := by
    rcases b with (_ | _ | _ | _) | (_ | _ | _ | _ | _) <;> decide
  intro v hv
  rw [data, List.mem_cons, List.mem_singleton] at hv
  rcases hv with rfl | rfl
  · exact Value.unbroken_symbol hname
  · exact Value.unbroken_int _

theorem oneLine_wrongTypeArgument (expected : Value.Tag) {actual : Value}
    (h : Unbroken actual.chars) : (wrongTypeArgument expected actual).OneLine := by
  have hname : Unbroken expected.predicate.toList := by
    cases expected <;> decide
  intro v hv
  rw [data, List.mem_cons, List.mem_singleton] at hv
  rcases hv with rfl | rfl
  · exact Value.unbroken_symbol hname
  · exact h

theorem oneLine_hostFailure (action : Action) (error : HostError) (target : String) :
    (hostFailure action error target).OneLine := by
  intro v hv
  simp only [data, List.mem_cons, List.not_mem_nil, or_false] at hv
  rcases hv with rfl | rfl | rfl <;> exact Value.unbroken_text _

/-- A report with one datum. -/
theorem oneLine_of_data {e : Signal} {v : Value} (hdata : e.data = [v]) (h : Unbroken v.chars) :
    e.OneLine := by
  intro w hw
  rw [hdata, List.mem_singleton] at hw
  exact hw ▸ h

end Signal

/-- A primitive complains about its arguments and the host on one line. -/
theorem Primitive.Failure.oneLine {p : Primitive} {args : List Value} {e : Signal}
    (h : Failure p args e) (hargs : ∀ v ∈ args, Unbroken v.chars) : e.OneLine := by
  cases h with
  | arity => exact Signal.oneLine_wrongNumberOfArguments (.primitive p) _
  | type hmem => exact Signal.oneLine_wrongTypeArgument _ (hargs _ hmem)
  | host action error target => exact Signal.oneLine_hostFailure action error target
  | missingCommand | nulInArgument => exact Signal.oneLine_of_data rfl (Value.unbroken_text _)

/-- **The result of a form is written unbroken if its value or its report is.** -/
theorem unbroken_renderResult {result : Except Signal Value}
    (hvalue : ∀ v, result = .ok v → Unbroken v.chars)
    (hfail : ∀ e, result = .error e → e.OneLine) :
    Unbroken (renderResult (result.mapError Signal.condition)).toList := by
  cases result with
  | ok v =>
    have hchars := hvalue v rfl
    show Unbroken ("OK " ++ String.ofList v.chars).toList
    simp only [String.toList_append, String.toList_ofList, unbroken_append]
    exact ⟨by decide, hchars⟩
  | error e =>
    have hdata : Unbroken (Condition.dataChars e.data) := by
      have hone : e.OneLine := hfail e rfl
      unfold Signal.OneLine at hone
      cases hcases : e.data with
      | nil => decide
      | cons v vs =>
        rw [hcases, List.forall_mem_cons] at hone
        simp only [Condition.dataChars, unbroken_append, unbroken_cons, unbroken_flatMap]
        exact ⟨⟨⟨by decide, hone.1⟩, fun w hw => ⟨by decide, hone.2 w hw⟩⟩, by decide⟩
    show Unbroken ("ERR (" ++ e.symbol ++ " " ++ String.ofList (Condition.dataChars e.data) ++
      ")").toList
    simp only [String.toList_append, String.toList_ofList, unbroken_append]
    exact ⟨⟨⟨⟨by decide, e.unbroken_symbol⟩, by decide⟩, hdata⟩, by decide⟩

/-! ## Runs -/

/-- All definitions are written unbroken. -/
def Session.OneLine (s : Session σ) : Prop :=
  ∀ name v, s.globals.get? name = some v → Unbroken v.chars

theorem Session.OneLine.start {s : Session σ} (h : s.globals = {}) : s.OneLine := by
  intro name v hv
  rw [h, Globals.get?_empty] at hv
  cases hv

theorem Session.OneLine.of_globals_eq {s t : Session σ} (hs : s.OneLine)
    (h : t.globals = s.globals) : t.OneLine := by
  intro name v hv
  rw [h] at hv
  exact hs name v hv

/-- The contract of the steps that deal with values on one line only. -/
def oneLineContract : Contract σ where
  Inv := Session.OneLine
  Changes _ _ := True
  Fails e _ := e.OneLine
  refl _ := trivial
  trans _ _ := trivial

theorem oneLine_isAboutGlobals : (oneLineContract (σ := σ)).IsAboutGlobals := by
  intro s t hglobals hs
  exact ⟨Session.OneLine.of_globals_eq hs hglobals, trivial⟩

/-- Runs of expressions that are written unbroken. -/
def oneLiners (i : Interpreter σ) : Comparison i i where
  Holds p x _ := oneLineContract.Holds p x
  Good v := Unbroken v.chars
  Calls _ _ := True
  Covers _ _ e := Unbroken e.chars
  pure := Contract.holds_pure
  bind := Contract.Holds.bind
  head h := Expr.unbroken_list_iff.mp h _ List.mem_cons_self
  operand h _ _ _ he := Expr.unbroken_list_iff.mp h _ (List.mem_cons_of_mem _ he)
  within _ hx := Contract.holds_within hx fun _ _ _ =>
    Signal.oneLine_of_data rfl (Value.unbroken_int _)
  void := by decide
  literal h := Value.unbroken_ofExpr h.unbroken
  quoted h _ := Value.unbroken_ofExpr (Expr.unbroken_list_iff.mp h _ (by simp))
  variableValue {_ _ name} h := by
    have hname : Unbroken name.toList := by rwa [Expr.chars] at h
    exact Contract.holds_variableValue (by decide) (by decide)
      (fun p _ => Value.unbroken_primitive p) (fun _ v hs hv => hs _ v hv)
      fun _ _ _ _ _ => Signal.oneLine_of_data rfl (Value.unbroken_symbol hname)
  namedCallee {_ _ head _} h := by
    have hhead : Unbroken head.chars := Expr.unbroken_list_iff.mp h _ List.mem_cons_self
    refine Contract.holds_namedCallee (fun h => ⟨fun _ _ => trivial, fun _ => h⟩)
      (fun _ _ _ _ => ⟨fun _ _ => trivial, by simp⟩) (fun _ name _ hname _ _ => ?_)
    rw [hname, Expr.chars] at hhead
    exact Signal.oneLine_of_data rfl (Value.unbroken_symbol hhead)
  calleeOfValue _ hgood := Contract.holds_calleeOfValue (fun _ _ _ _ => trivial)
    fun _ _ _ => Signal.oneLine_of_data rfl hgood
  checkArity _ _ := Contract.holds_checkArity fun _ _ _ =>
    Signal.oneLine_wrongNumberOfArguments _ _
  definable {_ _ _ target _} h _ := by
    have htarget : Unbroken target.chars := Expr.unbroken_list_iff.mp h _ (by simp)
    refine Contract.holds_definable (fun _ name _ hname _ => ?_)
      fun _ _ _ => Signal.oneLine_wrongTypeArgument _ (Value.unbroken_ofExpr htarget)
    rw [hname, Expr.chars] at htarget
    exact Signal.oneLine_of_data rfl (Value.unbroken_symbol htarget)
  define _ _ _ hv := Contract.holds_define fun _ hs => ⟨Globals.forall_insert hs hv, trivial⟩
  clock _ := oneLine_isAboutGlobals.ask i.host .cpuTime
  sameScale := .refl i
  apply {_ p args} _ _ hargs :=
    (oneLine_isAboutGlobals.outward (Primitive.outward_apply i p args)
      fun _ _ _ he => he.oneLine hargs).mono fun _ h => h.unbroken

/-- **A form that is written unbroken has a result that is, and leaves definitions that are.** -/
theorem Session.OneLine.evalForm {s : Session σ} (hs : s.OneLine) (i : Interpreter σ) {form : Expr}
    (hform : Unbroken form.chars) :
    (s.evalForm i form).2.OneLine ∧
      Unbroken (renderResult ((s.evalForm i form).1.mapError Signal.condition)).toList := by
  obtain ⟨hinv, -, hvalue, hfail⟩ :=
    @Comparison.eval σ i i (oneLiners i) form 0 0 hform s hs
  exact ⟨hinv, unbroken_renderResult hvalue hfail⟩

end HostScript
