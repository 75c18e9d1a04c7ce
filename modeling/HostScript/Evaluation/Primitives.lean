import HostScript.Builtin
import HostScript.Evaluation.Session
import HostScript.Settings

/-!
# Primitives

The operations on the host. Each one checks all of its arguments before it asks the host for
anything, and then asks once; only the working directory has a second source.
-/

namespace HostScript

/-- What an evaluation depends on besides the session. -/
structure Interpreter (σ : Type) where
  host : Host σ
  settings : Settings := {}

namespace Primitive

open Evaluation

variable {σ : Type}

/-! ## Directories, status and time -/

/-- Makes a directory the working directory. -/
def changeDir (host : Host σ) (path : String) : Evaluation σ Value := do
  match ← ask host (.setCurrentDir path) with
  | .ok () => pure .void
  | .error e =>
    warn ("cd: " ++ path ++ ": " ++ e.message)
    fail (.hostFailure .changingDirectory e path)

/-- The working directory as text. Where it cannot be read, the host's hint is taken, and without
a hint the empty text. -/
def workingDir (host : Host σ) : Evaluation σ Value := do
  match ← ask host .currentDir with
  | .ok path => pure (.text path.text)
  | .error e =>
    warn ("pwd: could not get current directory: " ++ e.message)
    let hint ← ask host .pwdHint
    pure (.text ((hint.map Path.text).getD ""))

/-- The low eight bits of a status. -/
def lowByte (code : Int64) : UInt8 := code.toUInt64.toUInt8

/-- Finishes with the low eight bits of a status. -/
def leave (host : Host σ) (code : Int64) : Evaluation σ Value := do
  ask host (.exit (lowByte code))
  pure .void

/-- The time of day. -/
def timeOfDay (host : Host σ) : Evaluation σ Value := do
  let seconds ← ask host .unixTime
  pure (.int seconds)

/-! ## Commands -/

/-- The texts among the arguments, which are numbered from `index` on. Any other argument is
refused if arguments are strict and otherwise passed over with a warning. -/
def commandWords (strict : Bool) (index : Nat) : List Value → Evaluation σ (List String)
  | [] => pure []
  | v :: rest =>
    match v.text? with
    | some word => do
      let words ← commandWords strict (index + 1) rest
      pure (word :: words)
    | none =>
      if strict then fail (.wrongTypeArgument .text v)
      else do
        warn ("sys: argument " ++ toString index ++ " is not text, skipping: " ++ v.render)
        commandWords strict (index + 1) rest

/-- Runs a command and tells how it ended: nothing for success, the status otherwise, and a record
if a signal ended it. -/
def runCommand (host : Host σ) (argv : ArgVector) : Evaluation σ Value := do
  let command := argv.programName
  match ← ask host (.runProcess argv) with
  | .error e =>
    warn ("sys: " ++ command ++ ": " ++ e.message)
    fail (.hostFailure .searchingForProgram e command)
  | .ok (.exited status) =>
    pure (if status = 0 then .void else .int (Int64.ofNat status.toNat))
  | .ok (.signaled signal) =>
    warn ("sys: " ++ command ++ ": Did not exit normally")
    pure (.record [("command", .text command), ("signal", .int signal.toInt64)])

/-- Runs the command that the texts among the arguments make up. -/
def system (i : Interpreter σ) (args : List Value) : Evaluation σ Value := do
  let words ← commandWords i.settings.strictSysArgs 0 args
  if words.isEmpty then fail .missingCommand
  else match ArgVector.ofList? words with
    | .error _ => fail .nulInArgument
    | .ok argv => runCommand i.host argv

/-! ## All primitives -/

/-- Applies a primitive to argument values. -/
def apply (i : Interpreter σ) : Primitive → List Value → Evaluation σ Value
  | cd, [.text path] => changeDir i.host path
  | cd, [v] => fail (.wrongTypeArgument .text v)
  | pwd, [] => workingDir i.host
  | exit, [.int code] => leave i.host code
  | exit, [v] => fail (.wrongTypeArgument .int v)
  | now, [] => timeOfDay i.host
  | sys, args => system i args
  | p, args => fail (.wrongNumberOfArguments p.descriptor.name args.length)

end Primitive

end HostScript
