import HostScript.Host.Scripted
import HostScript.Proofs.Evaluation.Contract

/-!
# Calls

What a call does depends on the callable that its head leads to (`Interpreter.call`). A head that
names a callable is not evaluated (`eval_named_call`); the value of any other head is called
(`eval_computed_call`).

A primitive checks the number of its operands first, then takes their values as a sequence of forms
would compute them, and then runs on these values (`eval_primitive_call`). That operands are
evaluated in turn is said by `Interpreter.Yields`; the evaluation of operands and of sequences both
follow it, up to the first expression that fails.
-/

namespace HostScript

variable {σ : Type}

open Evaluation

namespace Interpreter

variable {i : Interpreter σ} {d : Nat}

/-! ## From the head to the callable -/

/-- What a callable does with the operands of a call. -/
def call (i : Interpreter σ) (d : Nat) (b : Builtin) (operands : List Expr) :
    Evaluation σ Value := do
  checkArity b operands.length
  match b with
  | .form .quote => quoted operands
  | .form .define => i.evalDefinition d operands
  | .form .sequence => i.evalSequence d .void operands
  | .form .time => i.evalTimed d operands
  | .primitive p => do p.apply i (← i.evalOperands d operands)

theorem eval_call (i : Interpreter σ) (d : Nat) (head : Expr) (operands : List Expr) :
    i.eval d (.list (head :: operands)) = i.within d (do
      let named ← namedCallee head
      let b ← callee named (i.eval (d + 1) head)
      i.call (d + 1) b operands) := by
  rw [eval]
  rfl

/-- **A call by name calls what the name names.** -/
theorem eval_named_call (hd : d < i.settings.maxDepth.toNat) {name : String} {b : Builtin}
    (hb : Builtin.ofName? name = some b) (operands : List Expr) :
    i.eval d (.list (.symbol name :: operands)) = i.call (d + 1) b operands := by
  have hnamed : (namedCallee (.symbol name) : Evaluation σ (Option Builtin)) = pure (some b) := by
    rw [namedCallee, hb]
  rw [eval_call, within_of_lt hd, hnamed, pure_bind]
  exact pure_bind b _

/-- Whatever is evaluated counts as one evaluation. -/
theorem lt_maxDepth_of_eval_ok {e : Expr} {s t : Session σ} {v : Value}
    (h : i.eval d e s = (.ok v, t)) : d < i.settings.maxDepth.toNat := by
  have hwithin : ∃ x, i.eval d e = i.within d x := by
    match e with
    | .int _ | .dec _ | .text _ | .symbol _ | .list [] | .list (_ :: _) => exact ⟨_, by rw [eval]⟩
  obtain ⟨x, hx⟩ := hwithin
  by_cases hd : d < i.settings.maxDepth.toNat
  · exact hd
  · rw [hx, within_of_not_lt hd] at h
    cases h

/-- A symbol that names no callable has a value other than a constant's by being defined. -/
theorem contains_of_eval_symbol {name : String} (hname : Builtin.ofName? name = none)
    {s t : Session σ} {v : Value} (h : i.eval d (.symbol name) s = (.ok v, t)) (hnil : v ≠ .nil)
    (hvoid : v ≠ .void) : s.globals.contains name = true := by
  have hd := lt_maxDepth_of_eval_ok h
  rw [eval, within_of_lt hd] at h
  unfold variableValue at h
  split at h
  · exact absurd (Except.ok.inj (congrArg Prod.fst h)).symm hnil
  split at h
  · exact absurd (Except.ok.inj (congrArg Prod.fst h)).symm hvoid
  simp only [hname, globals_bind_apply] at h
  cases hget : s.globals.get? name with
  | some w => simp [Globals.contains, hget]
  | none =>
    rw [hget] at h
    cases h

/-- **A call by another head calls the value of the head.** -/
theorem eval_computed_call {head : Expr} (hhead : head.IsComputed) {s t : Session σ} {v : Value}
    (h : i.eval (d + 1) head s = (.ok v, t)) (hnil : v ≠ .nil) (hvoid : v ≠ .void)
    (operands : List Expr) :
    i.eval d (.list (head :: operands)) s =
      (calleeOfValue v >>= fun b => i.call (d + 1) b operands) t := by
  have hd := lt_maxDepth_of_eval_ok h
  have hnamed : namedCallee head s = (.ok none, s) := by
    unfold namedCallee
    split
    · next name =>
      have hname := hhead name rfl
      have hcontains := contains_of_eval_symbol hname h hnil hvoid
      simp only [hname, globals_bind_apply, hcontains, if_true]
      rfl
    · rfl
  rw [eval_call, within_of_lt (by omega), bind_ok hnamed, callee, bind_assoc, bind_ok h]

/-! ## Operands in turn -/

/-- The expressions have these values when they are evaluated in turn, each one in the session that
the one before it leaves. -/
inductive Yields (i : Interpreter σ) (d : Nat) :
    List Expr → Session σ → List Value → Session σ → Prop
  | nil (s : Session σ) : Yields i d [] s [] s
  | cons {e : Expr} {es : List Expr} {s t u : Session σ} {v : Value} {vs : List Value} :
    i.eval d e s = (.ok v, t) → Yields i d es t vs u → Yields i d (e :: es) s (v :: vs) u

namespace Yields

variable {es : List Expr} {s t : Session σ} {vs : List Value}

theorem evalOperands (h : Yields i d es s vs t) : i.evalOperands d es s = (.ok vs, t) := by
  induction h with
  | nil s => rw [Interpreter.evalOperands]; rfl
  | cons he _ ih => rw [Interpreter.evalOperands, bind_ok he, bind_ok ih]; rfl

theorem evalSequence (h : Yields i d es s vs t) (last : Value) :
    i.evalSequence d last es s = (.ok (vs.getLast?.getD last), t) := by
  induction h generalizing last with
  | nil s => rw [Interpreter.evalSequence]; rfl
  | @cons _ _ _ _ _ v vs he _ ih =>
    rw [Interpreter.evalSequence, bind_ok he, ih v]
    cases vs with
    | nil => rfl
    | cons w ws => rw [List.getLast?_cons_cons, List.getLast?_cons]; rfl

variable {e : Expr} {u : Session σ} {err : Signal}

/-- Forms after one that fails are not evaluated. -/
theorem evalSequence_error (h : Yields i d es s vs t) (he : i.eval d e t = (.error err, u))
    (after : List Expr) (last : Value) :
    i.evalSequence d last (es ++ e :: after) s = (.error err, u) := by
  induction h generalizing last with
  | nil s => rw [List.nil_append, Interpreter.evalSequence, bind_error he]
  | cons hf _ ih => rw [List.cons_append, Interpreter.evalSequence, bind_ok hf, ih he]

end Yields

/-- The expressions have values up to one that fails; it reports `err` and leaves `u`. -/
def FailsIn (i : Interpreter σ) (d : Nat) (es : List Expr) (s : Session σ) (err : Signal)
    (u : Session σ) : Prop :=
  ∃ before e after vs t, es = before ++ e :: after ∧ i.Yields d before s vs t ∧
    i.eval d e t = (.error err, u)

/-- Either all expressions have values, or one is the first to fail. -/
theorem yields_or_failsIn (i : Interpreter σ) (d : Nat) (es : List Expr) (s : Session σ) :
    (∃ vs t, i.Yields d es s vs t) ∨ ∃ err u, i.FailsIn d es s err u := by
  induction es generalizing s with
  | nil => exact Or.inl ⟨[], s, .nil s⟩
  | cons e es ih =>
    rcases h : i.eval d e s with ⟨err | v, t⟩
    · exact Or.inr ⟨err, t, [], e, es, [], s, rfl, .nil s, h⟩
    · rcases ih t with ⟨vs, u, hvs⟩ | ⟨err, u, before, f, after, vs, t', hes, hvs, hf⟩
      · exact Or.inl ⟨v :: vs, u, .cons h hvs⟩
      · exact Or.inr ⟨err, u, e :: before, f, after, v :: vs, t', by rw [hes]; rfl, .cons h hvs, hf⟩

/-! ## Primitives -/

theorem checkArity_of_accepts {b : Builtin} {count : Nat}
    (h : b.descriptor.arity.accepts count = true) :
    (checkArity b count : Evaluation σ Unit) = pure () := if_pos h

theorem call_sequence (operands : List Expr) :
    i.call d (.form .sequence) operands = i.evalSequence d .void operands := by
  have harity : (Builtin.form .sequence).descriptor.arity.accepts operands.length = true :=
    Arity.accepts_atLeast_iff.mpr (Nat.zero_le _)
  rw [call, checkArity_of_accepts harity]
  rfl

end Interpreter

end HostScript
