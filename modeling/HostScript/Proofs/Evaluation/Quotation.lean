import HostScript.Expr.Printer
import HostScript.Proofs.Evaluation.Calls

/-!
# Quotations

A quoted expression yields itself as data, and that is written as the expression is: the printer of
values, which follows chains of pairs, and the printer of expressions, which follows lists, give the
same text for every expression (`Value.charsAt_ofExpr`). Both write a list of two items with a quote
mark exactly if the first item is the symbol `quote`. The chain that stands for a list has this form
exactly if the list has it (`Value.charsAt_ofExprs`), so the two printers take the same case.
-/

namespace HostScript

namespace Value

/-! ## Data as it is written -/

theorem ofExpr_eq_symbol_iff {e : Expr} {name : String} :
    ofExpr e = symbol name ↔ e = .symbol name := by
  match e with
  | .int _ | .dec _ | .symbol _ | .text _ | .list [] | .list (_ :: _) => simp [ofExpr, ofExprs]

theorem exists_of_ofExprs_eq_pair {es : List Expr} {operand : Value}
    (h : ofExprs es = pair operand nil) : ∃ e, es = [e] := by
  match es with
  | [] => simp [ofExprs] at h
  | [e] => exact ⟨e, rfl⟩
  | _ :: _ :: _ => simp [ofExprs] at h

/-- A pair that is not the chain of a symbol and one more value is written in parentheses. -/
theorem charsAt_pair {car cdr : Value}
    (h : ∀ name operand, car = symbol name → cdr ≠ pair operand nil) :
    charsAt .alone (pair car cdr) =
      '(' :: charsAt .alone car ++ charsAt .tail cdr ++ [')'] := by
  rw [charsAt]
  exact fun name operand hcar hcdr => h name operand hcar hcdr

mutual

/-- **An expression is written alike as data and as an expression.** -/
theorem charsAt_ofExpr : ∀ e : Expr, charsAt .alone (ofExpr e) = e.chars
  | .int value => by rw [ofExpr, charsAt, Expr.chars]; rfl
  | .dec value => by rw [ofExpr, charsAt, Expr.chars]; rfl
  | .symbol name => by rw [ofExpr, charsAt, Expr.chars]; rfl
  | .text content => by rw [ofExpr, charsAt, Expr.chars]; rfl
  | .list [] => by rw [ofExpr, ofExprs, charsAt, Expr.chars]
  | .list (head :: tail) => by
    by_cases hpair : ∃ name operand, head = .symbol name ∧ tail = [operand]
    · obtain ⟨name, operand, rfl, rfl⟩ := hpair
      have hoperand := charsAt_ofExpr operand
      simp only [ofExpr, ofExprs, charsAt, Expr.chars, hoperand]
    · have hchain : ∀ name operand, ofExpr head = symbol name →
          ofExprs tail ≠ pair operand nil := by
        intro name operand hhead htail
        obtain ⟨e, rfl⟩ := exists_of_ofExprs_eq_pair htail
        exact hpair ⟨name, e, ofExpr_eq_symbol_iff.mp hhead, rfl⟩
      have hlist : Expr.chars (.list (head :: tail)) =
          '(' :: head.chars ++ Expr.tailChars tail ++ [')'] := by
        rw [Expr.chars]
        intro name operand hhead htail
        exact hpair ⟨name, operand, hhead, htail⟩
      rw [ofExpr, ofExprs, charsAt_pair hchain, charsAt_ofExpr head, charsAt_ofExprs tail, hlist]

/-- The rest of a chain is written as the rest of a list. -/
theorem charsAt_ofExprs : ∀ es : List Expr, charsAt .tail (ofExprs es) = Expr.tailChars es
  | [] => by rw [ofExprs, charsAt, Expr.tailChars]
  | e :: es => by
    rw [ofExprs, charsAt, charsAt_ofExpr e, charsAt_ofExprs es, Expr.tailChars]

end

theorem render_ofExpr (e : Expr) : (ofExpr e).render = e.render := by
  rw [render, chars, charsAt_ofExpr, Expr.render]

end Value

/-! ## Evaluating quotations -/

namespace Interpreter

open Evaluation

variable {σ : Type}

/-- A quotation yields its operand as data and leaves the session as it is. -/
theorem eval_quotation {i : Interpreter σ} {d : Nat} (hd : d < i.settings.maxDepth.toNat)
    (e : Expr) (s : Session σ) : i.eval d e.quotation s = (.ok (.ofExpr e), s) := by
  rw [Expr.quotation, eval_named_call hd (b := .form .quote) rfl]
  rfl

/-- **What is quoted is shown as it is written.** Every expression is written alike as data and as
an expression. Hence its quotation, wherever one more evaluation is admitted, succeeds with a result
that shows the expression, and changes nothing. -/
theorem eval_quotation_shows (e : Expr) :
    (Value.ofExpr e).render = e.render ∧
    ∀ (i : Interpreter σ) (d : Nat) (s : Session σ), d < i.settings.maxDepth.toNat →
      let run := i.eval d (.list [.symbol "quote", e]) s
      run = (.ok (.ofExpr e), s) ∧
        renderResult (run.1.mapError Signal.condition) = "OK " ++ e.render := by
  refine ⟨Value.render_ofExpr e, fun i d s hd => ?_⟩
  intro run
  have hrun : run = (.ok (.ofExpr e), s) := eval_quotation hd e s
  refine ⟨hrun, ?_⟩
  rw [hrun, ← Value.render_ofExpr e]
  rfl

/-- The form `(quote ((quote) 'x (quote () ())))`, in which all lists begin with the symbol `quote`,
with room for one evaluation only. -/
theorem eval_quotation_shows_nested :
    let i : Interpreter ScriptedHost :=
      { host := ScriptedHost.host, settings := { maxDepth := 1 } }
    let s : Session ScriptedHost := { host := { currentDir := .error .missing, unixTime := 0 } }
    let e : Expr := .list [.list [.symbol "quote"], .quotation (.symbol "x"),
      .list [.symbol "quote", .list [], .list []]]
    let run := i.eval 0 (.list [.symbol "quote", e]) s
    0 < i.settings.maxDepth.toNat ∧ run = (.ok (.ofExpr e), s) ∧
      renderResult (run.1.mapError Signal.condition) = "OK ((quote) 'x (quote Nil Nil))" := by
  intro i s e run
  have hd : 0 < i.settings.maxDepth.toNat := by decide
  obtain ⟨hrun, hshown⟩ := (eval_quotation_shows e).2 i 0 s hd
  refine ⟨hd, hrun, ?_⟩
  rw [hshown]
  decide

end Interpreter

end HostScript
