import HostScript.Proofs.Evaluation.Contract
import HostScript.Proofs.Evaluation.Locality

/-!
# Counting the evaluations in progress

Evaluation is handed the number of evaluations around it. Here it keeps the count itself: a
`CountedSession` has a counter, each evaluation adds one to it before it begins and takes one away
when it is over, and every way out has to pass there, those of failures in heads, operands,
definitions and timed expressions included.

With `d` evaluations in progress a counting step does what the step that is handed `d` does, and
leaves the counter at `d`, whether it fails or not (`Counting.Follows`). So it is for each single
step, for steps that follow each other, and for every expression (`Counting.follows_eval`). Hence a
form does what it does in a session where nothing was evaluated before, apart from the definitions
and the host (`Counting.eval_after_evalForms`).
-/

namespace HostScript

variable {σ α β : Type}

open Evaluation Interpreter

/-! ## Sessions that count -/

/-- A session with the number of evaluations in progress. -/
structure CountedSession (σ : Type) where
  session : Session σ
  depth : Nat := 0

/-- A step of a session that counts. -/
def Counting (σ α : Type) : Type := CountedSession σ → Except Signal α × CountedSession σ

namespace Counting

/-- Yields a value and does nothing. -/
protected def pure (a : α) : Counting σ α := fun s => (.ok a, s)

/-- Goes on with the value of the first step, if there is one. -/
protected def bind (x : Counting σ α) (f : α → Counting σ β) : Counting σ β := fun s =>
  match x s with
  | (.ok a, s') => f a s'
  | (.error e, s') => (.error e, s')

instance : Monad (Counting σ) where
  pure := Counting.pure
  bind := Counting.bind

/-- A step that does not touch the counter. -/
def lift (x : Evaluation σ α) : Counting σ α := fun s =>
  let (result, session) := x s.session
  (result, { s with session })

/-- Counts one evaluation more while `x` is in progress. `x` is not begun if these are too many. -/
def counted (i : Interpreter σ) (x : Counting σ α) : Counting σ α := fun s =>
  let begun := { s with depth := s.depth + 1 }
  if i.settings.maxDepth.toNat < begun.depth then
    (.error (.excessiveNesting i.settings.maxDepth), { begun with depth := begun.depth - 1 })
  else
    let (result, done) := x begun
    (result, { done with depth := done.depth - 1 })

/-- The callable of a call: the one that the head names, if it names one, and otherwise the one
that the head's value stands for. -/
def callee (named : Option Builtin) (headValue : Counting σ Value) : Counting σ Builtin :=
  match named with
  | some b => pure b
  | none => do
    let v ← headValue
    lift (calleeOfValue v)

mutual

/-- The value of an expression. -/
def eval (i : Interpreter σ) : Expr → Counting σ Value
  | .int value => counted i (pure (.int value))
  | .dec value => counted i (pure (.dec value))
  | .text content => counted i (pure (.text content))
  | .symbol name => counted i (lift (variableValue name))
  | .list [] => counted i (pure .nil)
  | .list (head :: operands) => counted i do
    let named ← lift (namedCallee head)
    let b ← callee named (eval i head)
    lift (checkArity b operands.length)
    match b with
    | .form .quote => lift (quoted operands)
    | .form .define => evalDefinition i operands
    | .form .sequence => evalSequence i .void operands
    | .form .time => evalTimed i operands
    | .primitive p => do
      let args ← evalOperands i operands
      lift (p.apply i args)

/-- The values of operands, from left to right up to the first that fails. -/
def evalOperands (i : Interpreter σ) : List Expr → Counting σ (List Value)
  | [] => pure []
  | e :: rest => do
    let v ← eval i e
    let vs ← evalOperands i rest
    pure (v :: vs)

/-- The value of the last of some forms, which are evaluated in turn; `last` if there are none. -/
def evalSequence (i : Interpreter σ) (last : Value) : List Expr → Counting σ Value
  | [] => pure last
  | e :: rest => do
    let v ← eval i e
    evalSequence i v rest

/-- Defines a name as the value of an expression. The name is checked first. -/
def evalDefinition (i : Interpreter σ) : List Expr → Counting σ Value
  | [target, e] => do
    let name ← lift (definable target)
    let v ← eval i e
    lift (define name v)
    pure .void
  | operands => lift (fail (.wrongNumberOfArguments "def" operands.length))

/-- The processor time that an expression takes. A failure takes no second sample. -/
def evalTimed (i : Interpreter σ) : List Expr → Counting σ Value
  | [e] => do
    let start ← lift (ask i.host .cpuTime)
    let _ ← eval i e
    let stop ← lift (ask i.host .cpuTime)
    pure (i.scaledSeconds start stop)
  | operands => lift (fail (.wrongNumberOfArguments "time" operands.length))

end

/-- Evaluates forms in turn, also after a failure. -/
def evalForms (i : Interpreter σ) :
    List Expr → CountedSession σ → List (Except Signal Value) × CountedSession σ
  | [], s => ([], s)
  | form :: rest, s =>
    let (result, s) := eval i form s
    let (results, s) := evalForms i rest s
    (result :: results, s)

/-! ## The counter is restored -/

/-- With `d` evaluations in progress `x` does what `y` does, and after it, whether it failed or not,
there are `d` again. -/
def Follows (d : Nat) (x : Counting σ α) (y : Evaluation σ α) : Prop :=
  ∀ s, x ⟨s, d⟩ = ((y s).1, ⟨(y s).2, d⟩)

theorem follows_pure (d : Nat) (a : α) : Follows d (pure a : Counting σ α) (pure a) :=
  fun _ => rfl

theorem follows_lift (d : Nat) (y : Evaluation σ α) : Follows d (lift y) y := fun _ => rfl

theorem Follows.bind {d : Nat} {x : Counting σ α} {y : Evaluation σ α} {f : α → Counting σ β}
    {g : α → Evaluation σ β} (hx : Follows d x y) (hf : ∀ a, Follows d (f a) (g a)) :
    Follows d (x >>= f) (y >>= g) := by
  intro s
  have hs := hx s
  show Counting.bind x f ⟨s, d⟩ = _
  unfold Counting.bind
  rcases h : y s with ⟨e | a, t⟩
  · rw [h] at hs
    rw [hs, bind_error h]
  · rw [h] at hs
    rw [hs, bind_ok h]
    exact hf a t

/-- What was counted at the beginning is taken back at the end, on either way out. -/
theorem Follows.counted {i : Interpreter σ} {d : Nat} {x : Counting σ α} {y : Evaluation σ α}
    (h : Follows (d + 1) x y) : Follows d (counted i x) (i.within d y) := by
  intro s
  have hs := h s
  by_cases hd : d < i.settings.maxDepth.toNat
  · have hlimit : ¬ i.settings.maxDepth.toNat < d + 1 := by omega
    rw [within_of_lt hd]
    simp only [Counting.counted, if_neg hlimit, hs, Nat.add_sub_cancel]
  · have hlimit : i.settings.maxDepth.toNat < d + 1 := by omega
    rw [within_of_not_lt hd]
    simp only [Counting.counted, if_pos hlimit, Nat.add_sub_cancel]
    rfl

theorem follows_callee {d : Nat} {x : Counting σ Value} {y : Evaluation σ Value}
    (h : Follows d x y) (named : Option Builtin) :
    Follows d (callee named x) (Interpreter.callee named y) := by
  cases named with
  | some b => exact follows_pure d b
  | none => exact h.bind fun v => follows_lift d (calleeOfValue v)

mutual

/-- **Every evaluation leaves the counter as it found it**, and does what the evaluation does that
is handed the count. -/
theorem follows_eval (i : Interpreter σ) :
    ∀ (e : Expr) (d : Nat), Follows d (eval i e) (i.eval d e)
  | .int value, d => by
    rw [eval, Interpreter.eval]
    exact (follows_pure (d + 1) _).counted
  | .dec value, d => by
    rw [eval, Interpreter.eval]
    exact (follows_pure (d + 1) _).counted
  | .text content, d => by
    rw [eval, Interpreter.eval]
    exact (follows_pure (d + 1) _).counted
  | .symbol name, d => by
    rw [eval, Interpreter.eval]
    exact (follows_lift (d + 1) _).counted
  | .list [], d => by
    rw [eval, Interpreter.eval]
    exact (follows_pure (d + 1) _).counted
  | .list (head :: operands), d => by
    rw [eval, Interpreter.eval]
    refine Follows.counted ?_
    refine (follows_lift (d + 1) _).bind fun named => ?_
    refine (follows_callee (follows_eval i head (d + 1)) named).bind fun b => ?_
    refine (follows_lift (d + 1) _).bind fun _ => ?_
    match b with
    | .form .quote => exact follows_lift (d + 1) (quoted operands)
    | .form .define => exact follows_evalDefinition i operands (d + 1)
    | .form .sequence => exact follows_evalSequence i operands (d + 1) .void
    | .form .time => exact follows_evalTimed i operands (d + 1)
    | .primitive p =>
      exact (follows_evalOperands i operands (d + 1)).bind fun args =>
        follows_lift (d + 1) (p.apply i args)

theorem follows_evalOperands (i : Interpreter σ) :
    ∀ (es : List Expr) (d : Nat), Follows d (evalOperands i es) (i.evalOperands d es)
  | [], d => by
    rw [evalOperands, Interpreter.evalOperands]
    exact follows_pure d []
  | e :: rest, d => by
    rw [evalOperands, Interpreter.evalOperands]
    refine (follows_eval i e d).bind fun v => ?_
    exact (follows_evalOperands i rest d).bind fun vs => follows_pure d (v :: vs)

theorem follows_evalSequence (i : Interpreter σ) :
    ∀ (es : List Expr) (d : Nat) (last : Value),
      Follows d (evalSequence i last es) (i.evalSequence d last es)
  | [], d, last => by
    rw [evalSequence, Interpreter.evalSequence]
    exact follows_pure d last
  | e :: rest, d, last => by
    rw [evalSequence, Interpreter.evalSequence]
    exact (follows_eval i e d).bind fun v => follows_evalSequence i rest d v

theorem follows_evalDefinition (i : Interpreter σ) :
    ∀ (operands : List Expr) (d : Nat),
      Follows d (evalDefinition i operands) (i.evalDefinition d operands)
  | [target, e], d => by
    rw [evalDefinition, Interpreter.evalDefinition]
    refine (follows_lift d _).bind fun name => ?_
    refine (follows_eval i e d).bind fun v => ?_
    exact (follows_lift d _).bind fun _ => follows_pure d Value.void
  | [], d | [_], d | _ :: _ :: _ :: _, d => by
    rw [evalDefinition, Interpreter.evalDefinition]
    · exact follows_lift d _
    all_goals simp

theorem follows_evalTimed (i : Interpreter σ) :
    ∀ (operands : List Expr) (d : Nat), Follows d (evalTimed i operands) (i.evalTimed d operands)
  | [e], d => by
    rw [evalTimed, Interpreter.evalTimed]
    refine (follows_lift d _).bind fun start => ?_
    refine (follows_eval i e d).bind fun _ => ?_
    exact (follows_lift d _).bind fun stop => follows_pure d _
  | [], d | _ :: _ :: _, d => by
    rw [evalTimed, Interpreter.evalTimed]
    · exact follows_lift d _
    all_goals simp

end

/-! ## One form after others -/

/-- Between forms nothing is in progress. -/
theorem evalForms_eq (i : Interpreter σ) (forms : List Expr) (s : Session σ) :
    evalForms i forms ⟨s, 0⟩ = ((s.evalForms i forms).1, ⟨(s.evalForms i forms).2, 0⟩) := by
  induction forms generalizing s with
  | nil => rfl
  | cons form rest ih =>
    have hform := follows_eval i form 0 s
    have hrest := ih (s.evalForm i form).2
    unfold Session.evalForm at hrest
    simp only [evalForms, Session.evalForms, Session.evalForm, hform, hrest]

/-- Warnings and requests that were made before have no bearing on an evaluation. -/
theorem sameRun_eval_fresh (i : Interpreter σ) (d : Nat) (e : Expr) (s : Session σ) :
    SameRun (fun _ => True) (fun _ => True) s { host := s.host, globals := s.globals }
      (i.eval d e s) (i.eval d e { host := s.host, globals := s.globals }) := by
  have hlocal := @Comparison.eval σ i i (locality i fun _ => True) e d d ⟨rfl, fun _ _ => trivial⟩
  exact hlocal s _ ⟨rfl, fun _ _ => rfl⟩

/-- **A form does the same whatever was evaluated before it, apart from the definitions and the
host.** After any forms, some of which may have failed anywhere, a form has the same result, leaves
the same definitions and the same host, and adds the same warnings and requests as in a new session
with these definitions and this host. For every evaluation, successful or not, leaves the counter as
it found it; and what the session does that counts is what the session does that does not. -/
theorem eval_after_evalForms (i : Interpreter σ) (s : Session σ) (forms : List Expr)
    (form : Expr) :
    let before := (evalForms i forms ⟨s, 0⟩).2
    let run := eval i form before
    let fresh := eval i form
      { session := { host := before.session.host, globals := before.session.globals } }
    (run.1 = fresh.1 ∧
      (∀ name, run.2.session.globals.get? name = fresh.2.session.globals.get? name) ∧
      run.2.session.host = fresh.2.session.host ∧
      run.2.session.warnings = before.session.warnings ++ fresh.2.session.warnings ∧
      run.2.session.requests = before.session.requests ++ fresh.2.session.requests) ∧
    (∀ (e : Expr) (t : CountedSession σ), (eval i e t).2.depth = t.depth) ∧
    before.session = (s.evalForms i forms).2 ∧
    (run.1, run.2.session) = before.session.evalForm i form := by
  intro before run fresh
  have hbefore : before = ⟨(s.evalForms i forms).2, 0⟩ :=
    congrArg Prod.snd (evalForms_eq i forms s)
  have hdepth : before = ⟨before.session, 0⟩ := by rw [hbefore]
  have hrun : run = ((i.eval 0 form before.session).1, ⟨(i.eval 0 form before.session).2, 0⟩) := by
    show eval i form before = _
    rw [hdepth]
    exact follows_eval i form 0 before.session
  have hfresh : fresh = _ := follows_eval i form 0 _
  refine ⟨?_, fun e t => ?_, by rw [hbefore], by rw [hrun]; rfl⟩
  · have hsame := sameRun_eval_fresh i 0 form before.session
    obtain ⟨ws, hws, hws'⟩ := hsame.warnings
    obtain ⟨rs, hrs, hrs'⟩ := hsame.requests
    rw [hrun, hfresh]
    refine ⟨hsame.result, fun name => hsame.agree.globals name trivial, hsame.agree.host, ?_, ?_⟩
    · rw [hws, hws', List.nil_append]
    · rw [hrs, hrs', List.nil_append]
  · have ht := follows_eval i e t.depth t.session
    show (eval i e ⟨t.session, t.depth⟩).2.depth = t.depth
    rw [ht]

end Counting

end HostScript
