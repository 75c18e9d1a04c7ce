import HostScript.Proofs.Evaluation.Contract
import HostScript.Proofs.Value.WellFormed

/-!
# Well-formed sessions

A session is well formed if only definable names are defined, and only as well-formed values. No
step of evaluation leads out of the well-formed sessions or yields or reports anything else than
well-formed values, whether it fails or not (`Session.WellFormed.eval`). A session that starts
without definitions is well formed, and so it stays (`Session.evalForms_wellFormed`).
-/

namespace HostScript

variable {σ : Type}

open Evaluation Interpreter

/-- Only definable names are defined, and only as well-formed values. -/
def Session.WellFormed (s : Session σ) : Prop :=
  ∀ name v, s.globals.get? name = some v → IsDefinable name ∧ v.WellFormed

theorem Session.WellFormed.of_globals_eq {s t : Session σ} (hs : s.WellFormed)
    (h : t.globals = s.globals) : t.WellFormed := by
  intro name v hv
  rw [h] at hv
  exact hs name v hv

theorem Session.WellFormed.insert {s : Session σ} (hs : s.WellFormed) {x : String}
    (hx : IsDefinable x) {v : Value} (hv : v.WellFormed) :
    ({ s with globals := s.globals.insert x v } : Session σ).WellFormed :=
  Globals.forall_insert hs ⟨hx, hv⟩

theorem Primitive.Answer.wellFormed {v : Value} (h : Answer v) : v.WellFormed := by
  cases h with
  | void => exact .void
  | text content => exact .datum (.text content)
  | int value => exact .datum (.int value)
  | signaled command signal => exact .signaled command signal

/-- A primitive complains about one of its arguments. -/
theorem Primitive.Failure.culprit_wellFormed {p : Primitive} {args : List Value} {e : Signal}
    (h : Failure p args e) (hargs : ∀ v ∈ args, v.WellFormed) :
    ∀ v, e.culprit? = some v → v.WellFormed := by
  intro v hv
  cases h with
  | type hmem _ => exact Option.some.inj hv ▸ hargs _ hmem
  | _ => cases hv

/-- The contract of the steps that deal with well-formed values only. -/
def wellFormedContract : Contract σ where
  Inv := Session.WellFormed
  Changes _ _ := True
  Fails e _ := ∀ v, e.culprit? = some v → v.WellFormed
  refl _ := trivial
  trans _ _ := trivial

theorem wellFormed_isAboutGlobals : (wellFormedContract (σ := σ)).IsAboutGlobals := by
  intro s t hglobals hs
  exact ⟨Session.WellFormed.of_globals_eq hs hglobals, trivial⟩

/-- Runs that deal with well-formed values only. -/
def wellFormedness (i : Interpreter σ) : Comparison i i where
  Holds p x _ := wellFormedContract.Holds p x
  Good := Value.WellFormed
  Calls _ _ := True
  Covers _ _ _ := True
  pure := Contract.holds_pure
  bind := Contract.Holds.bind
  head _ := trivial
  operand _ _ _ _ _ := trivial
  within _ hx := Contract.holds_within hx fun _ _ _ _ hv => nomatch hv
  void := .void
  literal _ := .datum (Value.datum_ofExpr _)
  quoted _ _ := .datum (Value.datum_ofExpr _)
  variableValue _ := Contract.holds_variableValue (.datum .nil) .void
    (fun p _ => .primitive p) (fun s v hs hv => (hs _ v hv).2)
    (fun _ _ _ _ _ _ hv => nomatch hv)
  namedCallee _ := Contract.holds_namedCallee (fun h => ⟨fun _ _ => trivial, fun _ => h⟩)
    (fun _ _ _ _ => ⟨fun _ _ => trivial, by simp⟩) (fun _ _ _ _ _ _ _ hv => nomatch hv)
  calleeOfValue _ hgood := Contract.holds_calleeOfValue (fun _ _ _ _ => trivial)
    fun _ _ _ _ hv => Option.some.inj hv ▸ hgood
  checkArity _ _ := Contract.holds_checkArity fun _ _ _ _ hv => nomatch hv
  definable {_ _ _ target _} _ _ := Contract.holds_definable (fun _ _ _ _ _ _ hv => nomatch hv)
    fun _ _ _ v hv => Option.some.inj hv ▸ .datum (Value.datum_ofExpr target)
  define _ _ hx hv := Contract.holds_define fun _ hs => ⟨hs.insert hx hv, trivial⟩
  clock _ := wellFormed_isAboutGlobals.ask i.host .cpuTime
  sameScale := .refl i
  apply {_ p args} _ _ hargs :=
    (wellFormed_isAboutGlobals.outward (Primitive.outward_apply i p args)
      fun _ _ _ he => he.culprit_wellFormed hargs).mono fun _ h => h.wellFormed

/-- A form yields a well-formed value, or a signal with well-formed data. -/
def WellFormedResult (result : Except Signal Value) : Prop :=
  (∀ v, result = .ok v → v.WellFormed) ∧
    ∀ e, result = .error e → ∀ v ∈ e.condition.data, v.WellFormed

/-- **From a well-formed session evaluation leads to a well-formed one, with a well-formed
result.** -/
theorem Session.WellFormed.eval {s : Session σ} (hs : s.WellFormed) (i : Interpreter σ) (d : Nat)
    (e : Expr) : (i.eval d e s).2.WellFormed ∧ WellFormedResult (i.eval d e s).1 := by
  obtain ⟨hinv, -, hvalue, hfail⟩ :=
    @Comparison.eval σ i i (wellFormedness i) e d d trivial s hs
  refine ⟨hinv, hvalue, ?_⟩
  intro signal hsignal v hv
  exact Signal.wellFormed_of_mem_data (hfail signal hsignal) hv

/-- **Every value that comes up in a session is well formed.** After any forms were evaluated, no
constant and no name of a callable is defined; the definitions and the results are well formed, and
so are the data of the failures. -/
theorem Session.evalForms_wellFormed (i : Interpreter σ) (host : σ) (forms : List Expr) :
    let run := ({ host } : Session σ).evalForms i forms
    (∀ name v, run.2.globals.get? name = some v →
      name ≠ "Nil" ∧ name ≠ "Void" ∧ Builtin.ofName? name = none ∧ v.WellFormed) ∧
    ∀ result ∈ run.1, (∀ v, result = .ok v → v.WellFormed) ∧
      ∀ e, result = .error e → ∀ v ∈ e.condition.data, v.WellFormed := by
  intro run
  have hstart : ({ host } : Session σ).WellFormed := by
    intro name v hv
    simp at hv
  obtain ⟨hrun, hresults⟩ := Session.evalForms_keeps Session.WellFormed WellFormedResult
    (fun form _ _ hs => hs.eval i 0 form) hstart
  refine ⟨fun name v hv => ?_, hresults⟩
  obtain ⟨⟨hconstant, hname⟩, hv⟩ := hrun name v hv
  simp only [isConstantName, Bool.or_eq_false_iff, decide_eq_false_iff_not] at hconstant
  exact ⟨hconstant.1, hconstant.2, hname, hv⟩

end HostScript
