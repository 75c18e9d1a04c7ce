import HostScript.Evaluation.Basic

/-!
# Comparing evaluations

Evaluation is put together from a few steps: looking a name up, finding what is called, checking a
number of operands, defining, reading a clock and applying a primitive. What holds of two runs of
each of these steps, and is passed on when steps follow each other, holds of two runs of the
evaluator on any expression.

A `Comparison` is such a claim with a proof for each step; `Comparison.eval` is the induction over
expressions, made once. The two runs may differ in their settings and in the number of evaluations
around them. A claim about one run is a comparison that disregards the other one.
-/

namespace HostScript

variable {σ : Type}

/-- Whether a script may define the name: it is no constant and names no callable. -/
def IsDefinable (name : String) : Prop := isConstantName name = false ∧ Builtin.ofName? name = none

/-- A head that names no callable, so that it is evaluated to find what is called. -/
def Expr.IsComputed (head : Expr) : Prop :=
  ∀ name, head = .symbol name → Builtin.ofName? name = none

/-- An expression that stands for itself: a number, a text or the empty list. -/
inductive Expr.IsLiteral : Expr → Prop
  | int (value : Int64) : IsLiteral (.int value)
  | dec (value : Binary64) : IsLiteral (.dec value)
  | text (content : String) : IsLiteral (.text content)
  | nil : IsLiteral (.list [])

/-- Two interpreters scale processor time alike. -/
def Interpreter.SameScale (i i' : Interpreter σ) : Prop :=
  i.settings.timeScale = i'.settings.timeScale

theorem Interpreter.SameScale.refl (i : Interpreter σ) : i.SameScale i := rfl

theorem Interpreter.SameScale.scaledSeconds {i i' : Interpreter σ} (h : i.SameScale i')
    (start stop : Duration) : i.scaledSeconds start stop = i'.scaledSeconds start stop := by
  unfold Interpreter.scaledSeconds
  rw [show i.settings.timeScale = i'.settings.timeScale from h]

open Evaluation Interpreter

/-- A claim about two runs of the evaluator, with its proof for the single steps. -/
structure Comparison (i i' : Interpreter σ) where
  /-- What is claimed of two steps; the predicate is about the values that they yield. -/
  Holds : {α : Type} → (α → Prop) → Evaluation σ α → Evaluation σ α → Prop
  /-- What is claimed of the values of expressions. -/
  Good : Value → Prop
  /-- Which callables a head leads to. -/
  Calls : Expr → Builtin → Prop
  /-- Which expressions the claim is about, with so many evaluations around the two runs. -/
  Covers : Nat → Nat → Expr → Prop
  pure {α : Type} {p : α → Prop} {a : α} : p a → Holds p (pure a) (pure a)
  bind {α β : Type} {p : α → Prop} {q : β → Prop} {x x' : Evaluation σ α}
    {f f' : α → Evaluation σ β} :
    Holds p x x' → (∀ a, p a → Holds q (f a) (f' a)) → Holds q (x >>= f) (x' >>= f')
  head {d d' : Nat} {head : Expr} {operands : List Expr} :
    Covers d d' (.list (head :: operands)) → Covers (d + 1) (d' + 1) head
  operand {d d' : Nat} {head : Expr} {operands : List Expr} {b : Builtin} :
    Covers d d' (.list (head :: operands)) → Calls head b → b ≠ .form .quote →
      ∀ e ∈ operands, Covers (d + 1) (d' + 1) e
  within {d d' : Nat} {e : Expr} {x x' : Evaluation σ Value} :
    Covers d d' e → Holds Good x x' → Holds Good (i.within d x) (i'.within d' x')
  void : Good .void
  literal {e : Expr} : e.IsLiteral → Good (.ofExpr e)
  quoted {d d' : Nat} {head e : Expr} :
    Covers d d' (.list [head, e]) → Calls head (.form .quote) → Good (.ofExpr e)
  variableValue {d d' : Nat} {name : String} :
    Covers d d' (.symbol name) → Holds Good (variableValue name) (variableValue name)
  namedCallee {d d' : Nat} {head : Expr} {operands : List Expr} :
    Covers d d' (.list (head :: operands)) →
      Holds (fun named => (∀ b, named = some b → Calls head b) ∧ (named = none → head.IsComputed))
        (namedCallee head) (namedCallee head)
  calleeOfValue {head : Expr} {v : Value} :
    head.IsComputed → Good v → Holds (Calls head) (calleeOfValue v) (calleeOfValue v)
  checkArity {d d' : Nat} {head : Expr} {operands : List Expr} {b : Builtin} :
    Covers d d' (.list (head :: operands)) → Calls head b →
      Holds (fun _ => b.descriptor.arity.accepts operands.length = true)
        (checkArity b operands.length) (checkArity b operands.length)
  definable {d d' : Nat} {head target e : Expr} :
    Covers d d' (.list [head, target, e]) → Calls head (.form .define) →
      Holds (fun name => target = .symbol name ∧ IsDefinable name) (definable target)
        (definable target)
  define {d d' : Nat} {head e : Expr} {name : String} {v : Value} :
    Covers d d' (.list [head, .symbol name, e]) → Calls head (.form .define) →
      IsDefinable name → Good v → Holds (fun _ => True) (define name v) (define name v)
  clock {head : Expr} :
    Calls head (.form .time) →
      Holds (fun _ => True) (ask i.host .cpuTime) (ask i'.host .cpuTime)
  sameScale : i.SameScale i'
  apply {head : Expr} {p : Primitive} {args : List Value} :
    Calls head (.primitive p) → p.descriptor.arity.accepts args.length = true →
      (∀ v ∈ args, Good v) → Holds Good (p.apply i args) (p.apply i' args)

namespace Comparison

variable {i i' : Interpreter σ} (c : Comparison i i')

theorem callee {head : Expr} {named : Option Builtin} {x x' : Evaluation σ Value}
    (hnamed : (∀ b, named = some b → c.Calls head b) ∧ (named = none → head.IsComputed))
    (hx : c.Holds c.Good x x') : c.Holds (c.Calls head) (callee named x) (callee named x') := by
  cases named with
  | some b => exact c.pure (hnamed.1 b rfl)
  | none => exact c.bind hx fun v hv => c.calleeOfValue (hnamed.2 rfl) hv

mutual

/-- **What holds of the steps of evaluation holds of the evaluation of every expression.** -/
theorem eval : ∀ (e : Expr) {d d' : Nat}, c.Covers d d' e →
    c.Holds c.Good (i.eval d e) (i'.eval d' e)
  | .int value, d, d', h => by
    rw [Interpreter.eval, Interpreter.eval]
    exact c.within h (c.pure (c.literal (.int value)))
  | .dec value, d, d', h => by
    rw [Interpreter.eval, Interpreter.eval]
    exact c.within h (c.pure (c.literal (.dec value)))
  | .text content, d, d', h => by
    rw [Interpreter.eval, Interpreter.eval]
    exact c.within h (c.pure (c.literal (.text content)))
  | .symbol name, d, d', h => by
    rw [Interpreter.eval, Interpreter.eval]
    exact c.within h (c.variableValue h)
  | .list [], d, d', h => by
    rw [Interpreter.eval, Interpreter.eval]
    exact c.within h (c.pure (c.literal .nil))
  | .list (head :: operands), d, d', h => by
    rw [Interpreter.eval, Interpreter.eval]
    refine c.within h (c.bind (c.namedCallee h) fun named hnamed => ?_)
    refine c.bind (c.callee hnamed (eval head (c.head h))) fun b hb => ?_
    refine c.bind (c.checkArity h hb) fun _ harity => ?_
    -- What the head leads to decides how the operands are taken.
    match b with
    | .form .quote =>
      -- The operand is a value as it stands, so it is not evaluated.
      obtain ⟨e, rfl⟩ := List.length_eq_one_iff.mp (Arity.accepts_exact_iff.mp harity)
      exact c.pure (c.quoted h hb)
    | .form .define => exact evalDefinition operands h hb harity
    | .form .sequence => exact evalSequence operands c.void (c.operand h hb (by simp))
    | .form .time => exact evalTimed operands h hb harity
    | .primitive p =>
      refine c.bind (evalOperands operands (c.operand h hb (by simp))) fun args hargs => ?_
      exact c.apply hb (by rw [hargs.1]; exact harity) hargs.2

/-- Operands are evaluated to as many values. -/
theorem evalOperands : ∀ (es : List Expr) {d d' : Nat}, (∀ e ∈ es, c.Covers d d' e) →
    c.Holds (fun vs => vs.length = es.length ∧ ∀ v ∈ vs, c.Good v)
      (i.evalOperands d es) (i'.evalOperands d' es)
  | [], d, d', _ => by
    rw [Interpreter.evalOperands, Interpreter.evalOperands]
    exact c.pure ⟨rfl, by simp⟩
  | e :: es, d, d', h => by
    rw [Interpreter.evalOperands, Interpreter.evalOperands]
    refine c.bind (eval e (h e List.mem_cons_self)) fun v hv => ?_
    refine c.bind (evalOperands es fun f hf => h f (List.mem_cons_of_mem e hf)) fun vs hvs => ?_
    refine c.pure ⟨by rw [List.length_cons, hvs.1, List.length_cons], fun w hw => ?_⟩
    rcases List.mem_cons.mp hw with rfl | hw
    · exact hv
    · exact hvs.2 w hw

theorem evalSequence : ∀ (es : List Expr) {d d' : Nat} {last : Value}, c.Good last →
    (∀ e ∈ es, c.Covers d d' e) →
      c.Holds c.Good (i.evalSequence d last es) (i'.evalSequence d' last es)
  | [], d, d', last, hlast, _ => by
    rw [Interpreter.evalSequence, Interpreter.evalSequence]
    exact c.pure hlast
  | e :: es, d, d', last, _, h => by
    rw [Interpreter.evalSequence, Interpreter.evalSequence]
    refine c.bind (eval e (h e List.mem_cons_self)) fun v hv => ?_
    exact evalSequence es hv fun f hf => h f (List.mem_cons_of_mem e hf)

theorem evalDefinition : ∀ (operands : List Expr) {d d' : Nat} {head : Expr},
    c.Covers d d' (.list (head :: operands)) → c.Calls head (.form .define) →
      (Arity.exact 2).accepts operands.length = true →
      c.Holds c.Good (i.evalDefinition (d + 1) operands) (i'.evalDefinition (d' + 1) operands)
  | [target, e], d, d', head, h, hb, _ => by
    rw [Interpreter.evalDefinition, Interpreter.evalDefinition]
    refine c.bind (c.definable h hb) fun name hname => ?_
    refine c.bind (eval e (c.operand h hb (by simp) e (by simp))) fun v hv => ?_
    obtain ⟨rfl, hname⟩ := hname
    exact c.bind (c.define h hb hname hv) fun _ _ => c.pure c.void

theorem evalTimed : ∀ (operands : List Expr) {d d' : Nat} {head : Expr},
    c.Covers d d' (.list (head :: operands)) → c.Calls head (.form .time) →
      (Arity.exact 1).accepts operands.length = true →
      c.Holds c.Good (i.evalTimed (d + 1) operands) (i'.evalTimed (d' + 1) operands)
  | [e], d, d', head, h, hb, _ => by
    rw [Interpreter.evalTimed, Interpreter.evalTimed]
    refine c.bind (c.clock hb) fun start _ => ?_
    refine c.bind (eval e (c.operand h hb (by simp) e (by simp))) fun _ _ => ?_
    refine c.bind (c.clock hb) fun stop _ => ?_
    rw [c.sameScale.scaledSeconds]
    exact c.pure (c.literal (.dec _))

end

end Comparison

end HostScript
