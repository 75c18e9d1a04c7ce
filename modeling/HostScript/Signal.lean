import HostScript.Host.Error
import HostScript.Value.Printer

/-!
# Signals

Why a form failed. A script sees a failure as a *condition*: a symbol and data. `Signal` holds the
cause and `Signal.condition` is the condition that reports it.
-/

namespace HostScript

/-- A failure as it is reported. -/
structure Condition where
  symbol : String
  data : List Value

namespace Condition

/-- The data one by one, so that they are never taken for a quotation. -/
def dataChars : List Value → List Char
  | [] => ['N', 'i', 'l']
  | v :: vs => '(' :: v.chars ++ vs.flatMap (fun w => ' ' :: w.chars) ++ [')']

/-- The condition as a message. -/
def render (c : Condition) : String :=
  "signal " ++ c.symbol ++ " " ++ String.ofList (dataChars c.data)

end Condition

/-- What was being done when the host failed. -/
inductive Action where
  | changingDirectory
  | searchingForProgram
deriving DecidableEq, Repr

def Action.text : Action → String
  | .changingDirectory => "Changing directory"
  | .searchingForProgram => "Searching for program"

/-- Why a form failed. -/
inductive Signal where
  | wrongNumberOfArguments (callee : String) (count : Nat)
  | wrongTypeArgument (expected : Value.Tag) (actual : Value)
  | voidVariable (name : String)
  | voidFunction (name : String)
  | invalidFunction (value : Value)
  | settingConstant (name : String)
  | excessiveNesting (limit : UInt64)
  | hostFailure (action : Action) (error : HostError) (target : String)
  | missingCommand
  | nulInArgument

/-- The symbol that reports a failure of the host. -/
def HostError.Kind.symbol : HostError.Kind → String
  | .notFound => "file-missing"
  | .permissionDenied => "permission-denied"
  | _ => "file-error"

@[simp] theorem HostError.Kind.symbol_notFound : Kind.notFound.symbol = "file-missing" := rfl

@[simp] theorem HostError.Kind.symbol_permissionDenied :
    Kind.permissionDenied.symbol = "permission-denied" := rfl

theorem HostError.Kind.symbol_of_ne {kind : Kind} (hmissing : kind ≠ .notFound)
    (hdenied : kind ≠ .permissionDenied) : kind.symbol = "file-error" := by
  cases kind with
  | notFound => exact absurd rfl hmissing
  | permissionDenied => exact absurd rfl hdenied
  | _ => rfl

namespace Signal

def symbol : Signal → String
  | wrongNumberOfArguments .. => "wrong-number-of-arguments"
  | wrongTypeArgument .. => "wrong-type-argument"
  | voidVariable _ => "void-variable"
  | voidFunction _ => "void-function"
  | invalidFunction _ => "invalid-function"
  | settingConstant _ => "setting-constant"
  | excessiveNesting _ => "excessive-nesting"
  | hostFailure _ error _ => error.kind.symbol
  | missingCommand => "error"
  | nulInArgument => "error"

/-- The data of the report. Counts and limits are integers of 64 bits with sign. -/
def data : Signal → List Value
  | wrongNumberOfArguments callee count => [.symbol callee, .int (Int64.ofNat count)]
  | wrongTypeArgument expected actual => [.symbol expected.predicate, actual]
  | voidVariable name => [.symbol name]
  | voidFunction name => [.symbol name]
  | invalidFunction value => [value]
  | settingConstant name => [.symbol name]
  | excessiveNesting limit => [.int limit.toInt64]
  | hostFailure action error target => [.text action.text, .text error.message, .text target]
  | missingCommand => [.text "sys: Missing system command to run"]
  | nulInArgument => [.text "sys: argument contains a NUL byte"]

/-- The condition that reports the failure. -/
def condition (s : Signal) : Condition := ⟨s.symbol, s.data⟩

end Signal

/-- The result of a form on one line. -/
def renderResult : Except Condition Value → String
  | .ok value => "OK " ++ value.render
  | .error c => "ERR (" ++ c.symbol ++ " " ++ String.ofList (Condition.dataChars c.data) ++ ")"

end HostScript
