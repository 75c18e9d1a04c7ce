import HostScript.Proofs.Evaluation.Confinement
import HostScript.Proofs.Evaluation.NestingLimit

/-!
# What failures report

A failure is reported as a condition: a symbol and data. `Condition.Truthful` lists the conditions
that evaluation reports, each with what has to be the case for the report to be true: the callable
takes another number of operands, the value is of another kind, the name is not defined. Every step
of evaluation reports the truth as long as values are primitives by their own names only, and so
does every run (`Session.Reachable.eval_reports`).

Two refusals of calls never come up. One is of a primitive by a name that no callable has, the other
of a callable that its descriptor puts among those of the other kind. `Interpreter.guardedCall` is a
call with both cases left open; what stands there makes no difference (`guardedCall_eq_eval`).
-/

namespace HostScript

variable {σ : Type}

open Evaluation Interpreter

/-! ## True reports -/

/-- The head of a call leads to the callable: it names it, or its value is a primitive. -/
inductive Expr.LeadsTo : Expr → Builtin → Prop
  | name {name : String} {b : Builtin} : Builtin.ofName? name = some b → LeadsTo (.symbol name) b
  | value {head : Expr} (p : Primitive) : head.IsComputed → LeadsTo head (.primitive p)

/-- What the condition says is so, when it is reported in the session `s` for the expression `e`
with `d` evaluations around it and a limit on nesting. Counts and limits are reported as they are if
they fit 64 bits with sign. -/
inductive Condition.Truthful (limit : UInt64) (d : Nat) (e : Expr) (s : Session σ) :
    Condition → Prop
  | wrongNumberOfArguments {head : Expr} {operands : List Expr} {b : Builtin} {count : Int64} :
    (Expr.list (head :: operands)).ActiveIn e → head.LeadsTo b →
    b.descriptor.arity.accepts operands.length = false →
    (operands.length < Nat.pow 2 63 → count.toInt = operands.length) →
    Truthful limit d e s ⟨"wrong-number-of-arguments", [.symbol b.name, .int count]⟩
  | wrongTypeArgument {expected : Value.Tag} {v : Value} :
    v.tag.predicate ≠ expected.predicate →
    Truthful limit d e s ⟨"wrong-type-argument", [.symbol expected.predicate, v]⟩
  | voidVariable {name : String} :
    s.globals.get? name = none → name ≠ "Nil" → name ≠ "Void" →
    (∀ p, Builtin.ofName? name ≠ some (.primitive p)) →
    Truthful limit d e s ⟨"void-variable", [.symbol name]⟩
  | voidFunction {name : String} :
    s.globals.get? name = none → Builtin.ofName? name = none →
    Truthful limit d e s ⟨"void-function", [.symbol name]⟩
  | invalidFunction {v : Value} :
    v.tag ≠ .primitive → Truthful limit d e s ⟨"invalid-function", [v]⟩
  | settingConstant {name : String} :
    (name = "Nil" ∨ name = "Void" ∨ ∃ b, Builtin.ofName? name = some b) →
    Truthful limit d e s ⟨"setting-constant", [.symbol name]⟩
  | excessiveNesting {n : Int64} :
    limit.toNat < d + e.nesting → (limit.toNat < Nat.pow 2 63 → n.toInt = limit.toNat) →
    Truthful limit d e s ⟨"excessive-nesting", [.int n]⟩
  | hostFailure {symbol action message target : String} :
    symbol ∈ ["file-missing", "permission-denied", "file-error"] →
    Truthful limit d e s ⟨symbol, [.text action, .text message, .text target]⟩
  | error (message : String) : Truthful limit d e s ⟨"error", [.text message]⟩

theorem Condition.Truthful.data_ne_nil {limit : UInt64} {d : Nat} {e : Expr} {s : Session σ}
    {c : Condition} (h : c.Truthful limit d e s) : c.data ≠ [] := by
  cases h <;> exact List.cons_ne_nil _ _

/-! ## What steps report -/

/-- Different kinds have different tests. -/
theorem Value.Tag.predicate_ne {a b : Tag} : a ≠ b → a.predicate ≠ b.predicate := by
  cases a <;> cases b <;> decide

theorem Value.tag_ofExpr_ne_symbol {e : Expr} (h : ∀ name, e ≠ .symbol name) :
    (Value.ofExpr e).tag ≠ .symbol := by
  match e with
  | .symbol name => exact absurd rfl (h name)
  | .int _ | .dec _ | .text _ | .list [] | .list (_ :: _) => simp [ofExpr, ofExprs, tag]

theorem not_isDefinable {name : String} (h : ¬ IsDefinable name) :
    name = "Nil" ∨ name = "Void" ∨ ∃ b, Builtin.ofName? name = some b := by
  cases hb : Builtin.ofName? name with
  | some b => exact Or.inr (Or.inr ⟨b, rfl⟩)
  | none =>
    have hconstant : isConstantName name = true := by
      cases hc : isConstantName name with
      | true => rfl
      | false => exact absurd ⟨hc, hb⟩ h
    simp only [isConstantName, Bool.or_eq_true, decide_eq_true_eq] at hconstant
    rcases hconstant with hnil | hvoid
    · exact Or.inl hnil
    · exact Or.inr (Or.inl hvoid)

theorem HostError.Kind.symbol_mem (kind : HostError.Kind) :
    kind.symbol ∈ ["file-missing", "permission-denied", "file-error"] := by
  cases kind <;> simp [HostError.Kind.symbol]

/-- A primitive that takes so many arguments reports the truth about them and about the host. -/
theorem Primitive.Failure.truthful {p : Primitive} {args : List Value} {err : Signal}
    (h : Failure p args err) (harity : p.descriptor.arity.accepts args.length = true)
    (limit : UInt64) (d : Nat) (e : Expr) (s : Session σ) : err.condition.Truthful limit d e s := by
  cases h with
  | arity hrefused =>
    rw [harity] at hrefused
    cases hrefused
  | type hmem htag => exact .wrongTypeArgument (Value.Tag.predicate_ne htag)
  | host action error target => exact .hostFailure error.kind.symbol_mem
  | missingCommand => exact .error _
  | nulInArgument => exact .error _

/-- A value that is called but calls nothing is no primitive, if it is genuine. -/
theorem Value.Genuine.tag_ne_primitive {v : Value} (hv : v.Genuine)
    (h : ∀ name b, v = .primitive name → Builtin.ofName? name ≠ some b) : v.tag ≠ .primitive := by
  cases v with
  | primitive name =>
    obtain ⟨p, rfl⟩ := hv name rfl
    exact absurd (Builtin.ofName?_name (.primitive p)) (h _ _ rfl)
  | _ => simp [tag]

/-! ## What runs report -/

/-- The contract of the steps that report the truth when an expression is evaluated with `depth`
evaluations around it. -/
def reportContract (limit : UInt64) (depth : Nat) (whole : Expr) : Contract σ where
  Inv := Session.Genuine
  Changes _ _ := True
  Fails err s := err.condition.Truthful limit depth whole s
  refl _ := trivial
  trans _ _ := trivial

theorem report_isAboutGlobals (limit : UInt64) (depth : Nat) (whole : Expr) :
    (reportContract (σ := σ) limit depth whole).IsAboutGlobals := by
  intro s t hglobals hs
  exact ⟨Session.Genuine.of_globals_eq hs hglobals, trivial⟩

/-- Runs of parts of an expression that report the truth. With the evaluations around it no part
goes deeper than the whole. -/
def reporting (i : Interpreter σ) (depth : Nat) (whole : Expr) : Comparison i i where
  Holds p x _ := (reportContract i.settings.maxDepth depth whole).Holds p x
  Good := Value.Genuine
  Calls := Expr.LeadsTo
  Covers d _ e := e.ActiveIn whole ∧ d + e.nesting ≤ depth + whole.nesting
  pure := Contract.holds_pure
  bind := Contract.Holds.bind
  head {_ _ head operands} h := by
    obtain ⟨hactive, hnesting⟩ := h
    have hlt : head.nesting < _ := Expr.nesting_lt_of_mem (List.mem_cons_self (l := operands))
    exact ⟨(Expr.activeIn_head head operands).trans hactive, by omega⟩
  operand {_ _ head operands b} h hb hquote e he := by
    obtain ⟨hactive, hnesting⟩ := h
    have hlt : e.nesting < _ := Expr.nesting_lt_of_mem (List.mem_cons_of_mem head he)
    refine ⟨(Expr.activeIn_operand (fun hhead => hquote ?_) he).trans hactive, by omega⟩
  -- What `quote` leads to is the quotation, by name.
    cases hb with
    | name hb =>
      rw [Expr.symbol.inj hhead] at hb
      exact (Option.some.inj hb).symm
    | value p hcomputed => cases hcomputed "quote" hhead
  within {_ _ e _ _} h hx := by
    refine Contract.holds_within hx fun s _ hd => .excessiveNesting ?_ toInt_toInt64_of_lt
    have hpos := e.nesting_pos
    obtain ⟨-, hnesting⟩ := h
    omega
  void := Value.genuine_void
  literal _ := Value.genuine_ofExpr _
  quoted _ _ := Value.genuine_ofExpr _
  variableValue _ := by
    refine Contract.holds_variableValue Value.genuine_nil Value.genuine_void
      (fun p _ => Value.genuine_primitive p) (fun _ v hs hv => hs _ v hv)
      (fun s _ hconstant hprimitive hget => ?_)
    simp only [isConstantName, Bool.or_eq_false_iff, decide_eq_false_iff_not] at hconstant
    exact .voidVariable hget hconstant.1 hconstant.2 hprimitive
  namedCallee {_ _ head _} _ := by
    refine Contract.holds_namedCallee (fun h => ⟨by simp, fun _ => h⟩)
      (fun name b hhead hb => ⟨fun c hc => ?_, by simp⟩)
      (fun s name _ _ hb hget => .voidFunction hget hb)
    obtain rfl := Option.some.inj hc
    rw [hhead]
    exact .name hb
  calleeOfValue {head v} hhead hv := by
    refine Contract.holds_calleeOfValue (fun name b hname hb => ?_)
      (fun s _ hnone => .invalidFunction (hv.tag_ne_primitive hnone))
    rw [hname] at hv
    obtain ⟨p, rfl⟩ := hv.eq_primitive hb
    exact .value p hhead
  checkArity h hb := Contract.holds_checkArity fun _ _ hrefused =>
    .wrongNumberOfArguments h.1 hb hrefused Int64.toInt_ofNat_of_lt
  definable _ _ := Contract.holds_definable
    (fun _ _ _ _ hname => .settingConstant (not_isDefinable hname))
    (fun _ _ htarget =>
      .wrongTypeArgument (Value.Tag.predicate_ne (Value.tag_ofExpr_ne_symbol htarget)))
  define _ _ _ hv := Contract.holds_define fun _ hs => ⟨hs.insert hv _, trivial⟩
  clock _ := (report_isAboutGlobals _ depth whole).ask i.host .cpuTime
  sameScale := .refl i
  apply {_ p args} _ harity _ :=
    ((report_isAboutGlobals _ depth whole).outward (Primitive.outward_apply i p args)
      fun s _ _ he => he.truthful harity _ depth whole s).mono fun _ h => h.genuine

theorem holds_report_eval (i : Interpreter σ) (d : Nat) (e : Expr) :
    (reportContract i.settings.maxDepth d e).Holds Value.Genuine (i.eval d e) :=
  @Comparison.eval σ i i (reporting i d e) e d d ⟨.self, Nat.le_refl _⟩

/-! ## Refusals that never come up -/

namespace Interpreter

variable (i : Interpreter σ) (d : Nat)

/-- What a special form does with the operands of a call. -/
def formCall : SpecialForm → List Expr → Evaluation σ Value
  | .quote, operands => quoted operands
  | .define, operands => i.evalDefinition d operands
  | .sequence, operands => i.evalSequence d .void operands
  | .time, operands => i.evalTimed d operands

/-- What a callable does with the operands of a call, which it is given as its descriptor tells.
`mismatch` stands where a special form is given values, or a primitive the operands as written. -/
def describedCall (mismatch : Builtin → Evaluation σ Value) (b : Builtin) (operands : List Expr) :
    Evaluation σ Value := do
  checkArity b operands.length
  match b.descriptor.operands with
  | .unevaluated =>
    match b with
    | .form f => i.formCall d f operands
    | .primitive _ => mismatch b
  | .evaluated => do
    let args ← i.evalOperands d operands
    match b with
    | .form _ => mismatch b
    | .primitive p => p.apply i args

/-- The callable that a value stands for. `unknown` stands where no callable has the name of a
primitive. -/
def knownCallee (unknown : String → Evaluation σ Builtin) : Value → Evaluation σ Builtin
  | .primitive name =>
    match Builtin.ofName? name with
    | some b => pure b
    | none => unknown name
  | v => fail (.invalidFunction v)

/-- The value of a list with a head, with both cases left open. -/
def guardedCall (unknown : String → Evaluation σ Builtin)
    (mismatch : Builtin → Evaluation σ Value) (head : Expr) (operands : List Expr) :
    Evaluation σ Value :=
  i.within d do
    match ← namedCallee head with
    | some b => i.describedCall (d + 1) mismatch b operands
    | none => do
      let v ← i.eval (d + 1) head
      let b ← knownCallee unknown v
      i.describedCall (d + 1) mismatch b operands

/-- The descriptor puts every callable among those of its kind. -/
theorem describedCall_eq_call (mismatch : Builtin → Evaluation σ Value) (b : Builtin)
    (operands : List Expr) : i.describedCall d mismatch b operands = i.call d b operands := by
  unfold describedCall call
  cases b with
  | form f => cases f <;> rfl
  | primitive p => cases p <;> rfl

theorem knownCallee_of_genuine {v : Value} (hv : v.Genuine)
    (unknown : String → Evaluation σ Builtin) : knownCallee unknown v = calleeOfValue v := by
  cases v with
  | primitive name =>
    obtain ⟨p, rfl⟩ := hv name rfl
    have hname : Builtin.ofName? p.descriptor.name = some (.primitive p) :=
      Builtin.ofName?_name (.primitive p)
    simp only [knownCallee, calleeOfValue, hname]
  | _ => rfl

/-- Looking at a head changes nothing. -/
theorem namedCallee_session (head : Expr) (s : Session σ) : (namedCallee head s).2 = s := by
  cases head with
  | symbol name =>
    rw [namedCallee]
    cases Builtin.ofName? name with
    | some b => rfl
    | none =>
      show ((globals >>= _) s).2 = s
      rw [globals_bind_apply]
      split <;> rfl
  | _ => rfl

/-- **Calls do not depend on what stands in the cases that never come up.** -/
theorem guardedCall_eq_eval {s : Session σ} (hs : s.Genuine)
    (unknown : String → Evaluation σ Builtin) (mismatch : Builtin → Evaluation σ Value)
    (head : Expr) (operands : List Expr) :
    i.guardedCall d unknown mismatch head operands s =
      i.eval d (.list (head :: operands)) s := by
  rw [eval_call]
  unfold guardedCall
  by_cases hd : d < i.settings.maxDepth.toNat
  · rw [within_of_lt hd, within_of_lt hd]
    simp only [describedCall_eq_call]
    rcases hnamed : namedCallee head s with ⟨err | named, t⟩
    · rw [bind_error hnamed, bind_error hnamed]
    · rw [bind_ok hnamed, bind_ok hnamed]
      cases named with
      | some b => rfl
      | none =>
        have ht : t = s := by
          have hsession := namedCallee_session head s
          rwa [hnamed] at hsession
        subst ht
        show (i.eval (d + 1) head >>= _) t = ((i.eval (d + 1) head >>= calleeOfValue) >>= _) t
        rw [bind_assoc]
        rcases hv : i.eval (d + 1) head t with ⟨err | v, u⟩
        · rw [bind_error hv, bind_error hv]
        · rw [bind_ok hv, bind_ok hv]
          -- The head of a call is evaluated like any other expression.
          have hgenuine : v.Genuine :=
            (holds_report_eval i (d + 1) head t hs).2.2.1 v (by rw [hv])
          rw [knownCallee_of_genuine hgenuine]
  · rw [within_of_not_lt hd, within_of_not_lt hd]

end Interpreter

/-! ## Reachable sessions -/

/-- **Failures are reported truthfully.** In a session that came about by evaluation every failure
of an expression is reported as one of the documented conditions, with data, and what the condition
says is so. The refusals for a primitive by an unknown name and for a callable of the wrong kind
never come up: a call does the same, whatever stands for them. -/
theorem Session.Reachable.eval_reports {s : Session σ} (hs : s.Reachable) (i : Interpreter σ)
    (d : Nat) (e : Expr) :
    let run := i.eval d e s
    (∀ err, run.1 = .error err →
      err.condition.data ≠ [] ∧ err.condition.Truthful i.settings.maxDepth d e run.2) ∧
    ∀ (head : Expr) (operands : List Expr) (unknown : String → Evaluation σ Builtin)
      (mismatch : Builtin → Evaluation σ Value),
      i.eval d (.list (head :: operands)) s =
        i.guardedCall d unknown mismatch head operands s := by
  intro run
  obtain ⟨-, -, -, hfail⟩ := holds_report_eval i d e s hs.genuine
  refine ⟨fun err herr => ?_, fun head operands unknown mismatch => ?_⟩
  · have htruthful : err.condition.Truthful i.settings.maxDepth d e run.2 := hfail err herr
    exact ⟨htruthful.data_ne_nil, htruthful⟩
  · exact (guardedCall_eq_eval i d hs.genuine unknown mismatch head operands).symm

/-- After `(def go cd!)` the form `(do (def x 1) (go x x))` is refused, and the report names `cd` and
counts two operands. -/
theorem Session.Reachable.eval_reports_cd :
    let i : Interpreter ScriptedHost := { host := ScriptedHost.host }
    let start : Session ScriptedHost := { host := { currentDir := .error .missing, unixTime := 0 } }
    let s := (i.eval 0 (.list [.symbol "def", .symbol "go", .symbol "cd!"]) start).2
    let e : Expr := .list [.symbol "do", .list [.symbol "def", .symbol "x", .int 1],
      .list [.symbol "go", .symbol "x", .symbol "x"]]
    let run := i.eval 0 e s
    s.Reachable ∧ ∃ err, run.1 = .error err ∧
      err.condition = ⟨"wrong-number-of-arguments", [.symbol "cd", .int 2]⟩ ∧
      err.condition.Truthful i.settings.maxDepth 0 e run.2 := by
  intro i start s e run
  have hs : s.Reachable := .eval i 0 _ (.start rfl)
  have hrun : run.1 = .error (.wrongNumberOfArguments "cd" 2) := rfl
  obtain ⟨hreports, -⟩ := hs.eval_reports i 0 e
  exact ⟨hs, _, hrun, rfl, (hreports _ hrun).2⟩

end HostScript
