import HostScript.Evaluation.Primitives

/-!
# Evaluation

Forms are evaluated by recursion on their structure. `depth` is the number of evaluations in
progress; it is passed down and so never has to be restored. A call checks the number of its
operands before it evaluates any of them.
-/

namespace HostScript

open Evaluation

variable {σ : Type}

namespace Interpreter

/-- Goes on if the depth limit admits one more evaluation. -/
def within {α : Type} (i : Interpreter σ) (depth : Nat) (k : Evaluation σ α) : Evaluation σ α :=
  if depth < i.settings.maxDepth.toNat then k else fail (.excessiveNesting i.settings.maxDepth)

/-! ## Names -/

/-- The value of a name: a constant's own, a primitive by any of its names, or what it is defined
as. Special forms are no values. -/
def variableValue (name : String) : Evaluation σ Value :=
  if name = "Nil" then pure .nil
  else if name = "Void" then pure .void
  else match Builtin.ofName? name with
    | some (.primitive p) => pure (.primitive p.descriptor.name)
    | _ => do
      match (← globals).get? name with
      | some v => pure v
      | none => fail (.voidVariable name)

/-- The callable that the head of a call names; none if the head has to be evaluated. -/
def namedCallee : Expr → Evaluation σ (Option Builtin)
  | .symbol name =>
    match Builtin.ofName? name with
    | some b => pure (some b)
    | none => do
      if (← globals).contains name then pure none else fail (.voidFunction name)
  | _ => pure none

/-- The callable that a head's value stands for. -/
def calleeOfValue : Value → Evaluation σ Builtin
  | .primitive name =>
    match Builtin.ofName? name with
    | some b => pure b
    | none => fail (.invalidFunction (.primitive name))
  | v => fail (.invalidFunction v)

/-- The callable of a call: the one that the head names, if it names one, and otherwise the one
that the head's value stands for. -/
def callee (named : Option Builtin) (headValue : Evaluation σ Value) : Evaluation σ Builtin :=
  match named with
  | some b => pure b
  | none => headValue >>= calleeOfValue

/-! ## Calls -/

/-- Refuses a number of operands that the callable does not take. -/
def checkArity (b : Builtin) (count : Nat) : Evaluation σ Unit :=
  if b.descriptor.arity.accepts count then pure ()
  else fail (.wrongNumberOfArguments b.name count)

/-- The name that a definition is for. -/
def definable : Expr → Evaluation σ String
  | .symbol name =>
    if isConstantName name || (Builtin.ofName? name).isSome then fail (.settingConstant name)
    else pure name
  | target => fail (.wrongTypeArgument .symbol (.ofExpr target))

/-- The operand of a quotation, as data. -/
def quoted : List Expr → Evaluation σ Value
  | [e] => pure (.ofExpr e)
  | operands => fail (.wrongNumberOfArguments "quote" operands.length)

/-- The processor time between two samples in scaled seconds. -/
def scaledSeconds (i : Interpreter σ) (start stop : Duration) : Value :=
  .dec ((Duration.between start stop).seconds * i.settings.timeScale)

mutual

/-- The value of an expression with `depth` evaluations in progress around it. -/
def eval (i : Interpreter σ) (depth : Nat) : Expr → Evaluation σ Value
  | .int value => i.within depth (pure (.int value))
  | .dec value => i.within depth (pure (.dec value))
  | .text content => i.within depth (pure (.text content))
  | .symbol name => i.within depth (variableValue name)
  | .list [] => i.within depth (pure .nil)
  | .list (head :: operands) => i.within depth do
    let named ← namedCallee head
    let b ← callee named (eval i (depth + 1) head)
    checkArity b operands.length
    match b with
    | .form .quote => quoted operands
    | .form .define => evalDefinition i (depth + 1) operands
    | .form .sequence => evalSequence i (depth + 1) .void operands
    | .form .time => evalTimed i (depth + 1) operands
    | .primitive p => do p.apply i (← evalOperands i (depth + 1) operands)

/-- The values of operands, from left to right up to the first that fails. -/
def evalOperands (i : Interpreter σ) (depth : Nat) : List Expr → Evaluation σ (List Value)
  | [] => pure []
  | e :: rest => do
    let v ← eval i depth e
    let vs ← evalOperands i depth rest
    pure (v :: vs)

/-- The value of the last of some forms, which are evaluated in turn; `last` if there are none. -/
def evalSequence (i : Interpreter σ) (depth : Nat) (last : Value) :
    List Expr → Evaluation σ Value
  | [] => pure last
  | e :: rest => do
    let v ← eval i depth e
    evalSequence i depth v rest

/-- Defines a name as the value of an expression. The name is checked first. -/
def evalDefinition (i : Interpreter σ) (depth : Nat) : List Expr → Evaluation σ Value
  | [target, e] => do
    let name ← definable target
    let v ← eval i depth e
    define name v
    pure .void
  | operands => fail (.wrongNumberOfArguments "def" operands.length)

/-- The processor time that an expression takes. A failure takes no second sample. -/
def evalTimed (i : Interpreter σ) (depth : Nat) : List Expr → Evaluation σ Value
  | [e] => do
    let start ← ask i.host .cpuTime
    let _ ← eval i depth e
    let stop ← ask i.host .cpuTime
    pure (i.scaledSeconds start stop)
  | operands => fail (.wrongNumberOfArguments "time" operands.length)

end

end Interpreter

/-! ## Forms of a session -/

namespace Session

/-- Evaluates a form of the script. -/
def evalForm (i : Interpreter σ) (form : Expr) (s : Session σ) :
    Except Signal Value × Session σ :=
  i.eval 0 form s

/-- Evaluates forms in turn, also after a failure. -/
def evalForms (i : Interpreter σ) : List Expr → Session σ → List (Except Signal Value) × Session σ
  | [], s => ([], s)
  | form :: rest, s =>
    let (result, s) := s.evalForm i form
    let (results, s) := s.evalForms i rest
    (result :: results, s)

/-- The warnings since they were last taken. -/
def takeWarnings (s : Session σ) : List String × Session σ :=
  (s.warnings, { s with warnings := [] })

end Session

end HostScript
