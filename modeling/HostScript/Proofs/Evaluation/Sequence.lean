import HostScript.Proofs.Evaluation.Calls
import HostScript.Proofs.Evaluation.NestingLimit

/-!
# Sequences and forms one by one

With one evaluation more around it and a limit that is higher by one, an expression does the same,
except that a report of excessive nesting names the higher limit (`Raises`). That is so for the step
that counts, as both counts and both limits differ by one, and for all other steps, which see
neither. So a sequence under the higher limit evaluates its forms just as they are evaluated one by
one under the lower limit, up to the first that fails (`evalForm_sequence`).
-/

namespace HostScript

variable {σ α β : Type}

open Evaluation Interpreter

/-! ## One evaluation more under a limit that is higher by one -/

/-- The failure as it is reported under another limit. -/
def Signal.underLimit (limit : UInt64) : Signal → Signal
  | excessiveNesting _ => excessiveNesting limit
  | e => e

theorem Signal.underLimit_of_ne {e : Signal} (h : ∀ limit, e ≠ excessiveNesting limit)
    (limit : UInt64) : e.underLimit limit = e := by
  cases e with
  | excessiveNesting other => exact absurd rfl (h other)
  | _ => rfl

/-- `x'` does what `x` does, but reports `m'` where `x` reports that `m` evaluations are in
progress. -/
def Raises (m m' : UInt64) (p : α → Prop) (x x' : Evaluation σ α) : Prop := ∀ s,
  (∀ a, (x s).1 = .ok a → p a) ∧ (∀ limit, (x s).1 = .error (.excessiveNesting limit) → limit = m) ∧
    x' s = ((x s).1.mapError (Signal.underLimit m'), (x s).2)

theorem Raises.of_plain {m m' : UInt64} {p : α → Prop} {x : Evaluation σ α} (h : Plain p x) :
    Raises m m' p x x := by
  intro s
  obtain ⟨-, -, hvalue, hfail⟩ := h s trivial
  refine ⟨hvalue, fun limit hlimit => absurd rfl (hfail _ hlimit limit), ?_⟩
  rcases hx : x s with ⟨e | a, t⟩
  · have he : ∀ limit, e ≠ .excessiveNesting limit := hfail e (by rw [hx])
    show (Except.error e, t) = (Except.error (e.underLimit m'), t)
    rw [e.underLimit_of_ne he]
  · rfl

theorem Raises.bind {m m' : UInt64} {p : α → Prop} {q : β → Prop} {x x' : Evaluation σ α}
    {f f' : α → Evaluation σ β} (hx : Raises m m' p x x')
    (hf : ∀ a, p a → Raises m m' q (f a) (f' a)) : Raises m m' q (x >>= f) (x' >>= f') := by
  intro s
  obtain ⟨hvalue, hlimit, hraised⟩ := hx s
  rcases h : x s with ⟨e | a, t⟩
  · rw [h] at hlimit hraised
    rw [bind_error h, bind_error hraised]
    refine ⟨by simp, fun limit he => hlimit limit ?_, rfl⟩
    rw [Except.error.inj he]
  · rw [h] at hvalue hraised
    rw [bind_ok h, bind_ok hraised]
    exact hf a (hvalue a rfl) t

theorem Raises.within {i : Interpreter σ} {m m' : UInt64} (hm : m'.toNat = m.toNat + 1)
    {p : α → Prop} {x x' : Evaluation σ α} (h : Raises m m' p x x') (d : Nat) :
    Raises m m' p ((i.withMaxDepth m).within d x) ((i.withMaxDepth m').within (d + 1) x') := by
  by_cases hd : d < m.toNat
  · have hd' : d + 1 < m'.toNat := by omega
    rw [within_of_lt (i := i.withMaxDepth m) hd, within_of_lt (i := i.withMaxDepth m') hd']
    exact h
  · have hd' : ¬ d + 1 < m'.toNat := by omega
    rw [within_of_not_lt (i := i.withMaxDepth m) hd, within_of_not_lt (i := i.withMaxDepth m') hd']
    intro s
    refine ⟨by simp [Evaluation.fail], fun limit hlimit => ?_, rfl⟩
    exact (Signal.excessiveNesting.inj (Except.error.inj hlimit)).symm

/-- Runs of which the second has one evaluation more around it, and the limit to go with it. -/
def raising (i : Interpreter σ) {m m' : UInt64} (hm : m'.toNat = m.toNat + 1) :
    LimitComparison i m m' where
  Holds := Raises m m'
  Covers d d' _ := d' = d + 1
  ofPlain := .of_plain
  bind := .bind
  item h _ := congrArg (· + 1) h
  within {d _ _ _ _} h hx := h ▸ hx.within hm d

/-- **One evaluation more makes no difference if the limit is higher by one.** -/
theorem raises_eval (i : Interpreter σ) {m m' : UInt64} (hm : m'.toNat = m.toNat + 1) (d : Nat)
    (e : Expr) :
    Raises m m' (fun _ => True) ((i.withMaxDepth m).eval d e)
      ((i.withMaxDepth m').eval (d + 1) e) :=
  (raising i hm).comparison.eval e rfl

/-! ## Forms one by one -/

section

variable {i : Interpreter σ} {es : List Expr} {s t : Session σ} {vs : List Value}

/-- Forms that have values are evaluated before further ones. -/
theorem Interpreter.Yields.evalForms_append (h : i.Yields 0 es s vs t) (rest : List Expr) :
    s.evalForms i (es ++ rest) =
      (vs.map .ok ++ (t.evalForms i rest).1, (t.evalForms i rest).2) := by
  induction h with
  | nil s => rfl
  | cons he _ ih =>
    simp only [List.cons_append, Session.evalForms, Session.evalForm, he, ih, List.map_cons]

theorem Interpreter.Yields.raised {m m' : UInt64} {d : Nat} (hm : m'.toNat = m.toNat + 1)
    (h : (i.withMaxDepth m).Yields d es s vs t) :
    (i.withMaxDepth m').Yields (d + 1) es s vs t := by
  induction h with
  | nil s => exact .nil s
  | @cons e _ s _ _ _ _ he _ ih =>
    obtain ⟨-, -, hraised⟩ := raises_eval i hm d e s
    rw [he] at hraised
    exact .cons hraised ih

end

/-- `e'` is the failure `e`, or they both report excessive nesting, `e` under the limit `m` and `e'`
under the one that is higher by one. -/
def Signal.RaisedTo (m : Nat) (e e' : Signal) : Prop :=
  (e.symbol ≠ "excessive-nesting" ∧ e' = e) ∨
    ∃ n n' : Int64, e.condition = ⟨"excessive-nesting", [.int n]⟩ ∧ n.toInt = m ∧
      e'.condition = ⟨"excessive-nesting", [.int n']⟩ ∧ n'.toInt = m + 1

theorem Signal.raisedTo_underLimit {m m' : UInt64} (hm : m'.toNat = m.toNat + 1)
    (hlt : m'.toNat < Nat.pow 2 63) {e : Signal}
    (h : ∀ limit, e = .excessiveNesting limit → limit = m) :
    e.RaisedTo m.toNat (e.underLimit m') := by
  by_cases hsymbol : e.symbol = "excessive-nesting"
  · obtain ⟨limit, rfl⟩ := Signal.symbol_eq_excessiveNesting hsymbol
    obtain rfl := h limit rfl
    have hlower : limit.toNat < Nat.pow 2 63 := by omega
    obtain ⟨n, hn, hvalue⟩ := Signal.exists_condition_excessiveNesting hlower
    obtain ⟨n', hn', hvalue'⟩ := Signal.exists_condition_excessiveNesting hlt
    refine Or.inr ⟨n, n', hn, hvalue, hn', ?_⟩
    rw [hvalue', hm]
    rfl
  · refine Or.inl ⟨hsymbol, Signal.underLimit_of_ne (fun limit hlimit => hsymbol ?_) m'⟩
    rw [hlimit]
    rfl

/-- **A sequence is evaluated as its forms are one by one.** Under a limit that is higher by one, as
the sequence itself counts one, it leaves the session that its forms leave, when they are evaluated
each for itself up to and with the first that fails. If none fails, it has the value of the last
one; otherwise it fails like the one that does, except that a report of excessive nesting names the
higher limit. -/
theorem Session.evalForm_sequence (i : Interpreter σ) {m : UInt64}
    (hlt : m.toNat + 1 < Nat.pow 2 63) (es : List Expr) (s : Session σ) :
    let run := s.evalForm (i.withMaxDepth (m + 1)) (.list (.symbol "do" :: es))
    (∃ vs : List Value, s.evalForms (i.withMaxDepth m) es = (vs.map .ok, run.2) ∧
      run.1 = .ok (vs.getLast?.getD .void)) ∨
    ∃ (before : List Expr) (e : Expr) (after : List Expr) (vs : List Value) (err err' : Signal),
      es = before ++ e :: after ∧
      s.evalForms (i.withMaxDepth m) (before ++ [e]) = (vs.map .ok ++ [.error err], run.2) ∧
      run.1 = .error err' ∧ err.RaisedTo m.toNat err' := by
  intro run
  have hm : (m + 1).toNat = m.toNat + 1 := by
    rw [UInt64.toNat_add]
    exact Nat.mod_eq_of_lt (by simp at hlt ⊢; omega)
  have hrun : run = (i.withMaxDepth (m + 1)).evalSequence 1 .void es s := by
    have hpos : 0 < (i.withMaxDepth (m + 1)).settings.maxDepth.toNat := by
      show 0 < (m + 1).toNat
      omega
    show (i.withMaxDepth (m + 1)).eval 0 _ s = _
    rw [eval_named_call hpos (b := .form .sequence) rfl, call_sequence]
  rcases yields_or_failsIn (i.withMaxDepth m) 0 es s with ⟨vs, t, hvs⟩ | ⟨err, u, hfail⟩
  · -- All forms have values, and have the same ones inside the sequence.
    have hforms := hvs.evalForms_append []
    rw [List.append_nil] at hforms
    rw [(hvs.raised hm).evalSequence] at hrun
    left
    refine ⟨vs, ?_, by rw [hrun]⟩
    rw [hforms, hrun]
    simp [Session.evalForms]
  · obtain ⟨before, e, after, vs, t, hes, hvs, he⟩ := hfail
    obtain ⟨-, hlimit, hraised⟩ := raises_eval i hm 0 e t
    rw [he] at hlimit hraised
    have hforms := hvs.evalForms_append [e]
    rw [hes, (hvs.raised hm).evalSequence_error hraised] at hrun
    right
    refine ⟨before, e, after, vs, err, err.underLimit (m + 1), hes, ?_, by rw [hrun], ?_⟩
    · rw [hforms, hrun]
      simp only [Session.evalForms, Session.evalForm, he]
    · refine Signal.raisedTo_underLimit hm (by omega) fun limit herr => hlimit limit ?_
      rw [herr]

/-- In the sequence `(do (def x 1) (do (do 1)) (def y 2))` under the limit three the second form is
nested too deep, as it is by itself under the limit two. The third one is not evaluated. -/
theorem Session.evalForm_sequence_nested :
    let i : Interpreter ScriptedHost := { host := ScriptedHost.host }
    let s : Session ScriptedHost := { host := { currentDir := .error .missing, unixTime := 0 } }
    let es : List Expr := [.list [.symbol "def", .symbol "x", .int 1],
      .list [.symbol "do", .list [.symbol "do", .int 1]],
      .list [.symbol "def", .symbol "y", .int 2]]
    let run := s.evalForm (i.withMaxDepth (2 + 1)) (.list (.symbol "do" :: es))
    (2 : UInt64).toNat + 1 < Nat.pow 2 63 ∧ run.2.globals.get? "x" = some (.int 1) ∧
      run.2.globals.get? "y" = none ∧ run.1 = .error (.excessiveNesting 3) ∧
      ∃ (before : List Expr) (e : Expr) (after : List Expr) (vs : List Value) (err : Signal),
        es = before ++ e :: after ∧
        s.evalForms (i.withMaxDepth 2) (before ++ [e]) = (vs.map .ok ++ [.error err], run.2) ∧
        err.RaisedTo 2 (.excessiveNesting 3) := by
  intro i s es run
  have hlt : (2 : UInt64).toNat + 1 < Nat.pow 2 63 := by decide
  have hrun : run.1 = .error (.excessiveNesting 3) := rfl
  refine ⟨hlt, rfl, rfl, hrun, ?_⟩
  rcases s.evalForm_sequence i hlt es with ⟨vs, -, hvalue⟩ |
    ⟨before, e, after, vs, err, err', hes, hforms, herr, hraised⟩
  · cases hrun.symm.trans hvalue
  · obtain rfl := Except.error.inj (hrun.symm.trans herr)
    exact ⟨before, e, after, vs, err, hes, hforms, hraised⟩

end HostScript
