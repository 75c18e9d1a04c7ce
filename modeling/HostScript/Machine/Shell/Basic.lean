import HostScript.Machine.Shell.Script
import HostScript.Machine.Tools

/-!
# Running shell scripts

A shell runs the commands of a script one after another. Scripts can run scripts, in an expansion or
as a command of their own; `runScript` bounds how deep, and a script beyond the bound fails.
-/

namespace HostScript

/-- A shell in the middle of a script, with what it has written so far. -/
structure Shell where
  /-- The name by which the shell was called. -/
  name : String
  parameters : List String := []
  /-- The status of the last command. -/
  status : UInt8 := 0
  system : System
  output : String := ""
  errors : String := ""

namespace Shell

/-- The number by which a shell knows itself as a process. -/
def processNumber : String := "4711"

/-- Runs a script in a shell of its own. -/
abbrev Inner := List Char → Shell → Ending

/-- The status by which a shell knows how a process ended. -/
def statusOf : ProcessOutcome → UInt8
  | .exited status => status
  | .signaled signal => UInt8.ofNat (128 + signal.toInt.toNat)

/-- The shell after a process that it started, apart from what that wrote to standard output. -/
def after (s : Shell) (e : Ending) : Shell :=
  { s with
    status := statusOf e.outcome
    system := s.system.after e.system
    errors := s.errors ++ e.errors }

/-- The end of a shell. -/
def ending (s : Shell) (outcome : ProcessOutcome) : Ending :=
  { outcome, system := s.system, output := s.output, errors := s.errors }

/-- Notes a complaint of the shell itself. -/
def complain (s : Shell) (text : String) (status : UInt8) : Shell :=
  { s with errors := s.errors ++ s.name ++ ": 1: " ++ text ++ "\n", status }

/-! ## Expansion -/

/-- The text of a parameter or variable. -/
def parameterText (s : Shell) (name : String) : String :=
  match name with
  | "#" => toString s.parameters.length
  | "?" => toString s.status.toNat
  | "$" => processNumber
  | "PWD" => (s.system.workingPath.toOption.or (s.system.environment.lookup "PWD")).getD ""
  | _ =>
    match Integer.digits? name.toList with
    | some n => (s.parameters[n - 1]?).getD ""
    | none => (s.system.environment.lookup name).getD ""

/-- The text of a word. Of what a script writes the line ends at its end are left out. -/
def expand (inner : Inner) (s : Shell) : List Piece → List Char × Shell
  | [] => ([], s)
  | .literal c :: rest =>
    let (text, s) := expand inner s rest
    (c :: text, s)
  | .parameter name :: rest =>
    let value := s.parameterText (String.ofList name)
    let (text, s) := expand inner s rest
    (value.toList ++ text, s)
  | .output script :: rest =>
    let ending := inner script { s with output := "", errors := "" }
    let written := (ending.output.toList.reverse.dropWhile (· = '\n')).reverse
    let (text, s) := expand inner (s.after ending) rest
    (written ++ text, s)

/-- The texts of some words. -/
def expandWords (inner : Inner) (s : Shell) : List (List Piece) → List String × Shell
  | [] => ([], s)
  | word :: rest =>
    let (text, s) := expand inner s word
    let (words, s) := expandWords inner s rest
    (String.ofList text :: words, s)

/-! ## Commands -/

/-- The names of signals. -/
def signalNames : List (String × Nat) :=
  [("HUP", 1), ("INT", 2), ("QUIT", 3), ("ABRT", 6), ("KILL", 9), ("USR1", 10), ("SEGV", 11),
    ("USR2", 12), ("PIPE", 13), ("ALRM", 14), ("TERM", 15)]

/-- The signal that the first arguments of `kill` name or give; without one it is `TERM`. -/
def signal? : List String → Option Nat
  | "-s" :: name :: _ => signalNames.lookup name
  | word :: _ =>
    match word.toList with
    | '-' :: name => (Integer.digits? name).or (signalNames.lookup (String.ofList name))
    | _ => some 15
  | [] => none

/-- Runs a program. -/
def runProgram (inner : Inner) (program word : String) (args : List String) (s : System) :
    Ending :=
  match program, args with
  | "sh", "-c" :: script :: rest =>
    inner script.toList { name := rest.headD word, parameters := rest.tail, system := s }
  | _, _ => Tool.run program args s

/-- Runs a command with expanded words. The outcome is there if the shell ends with it. -/
def runWords (inner : Inner) (s : Shell) : List String → Shell × Option ProcessOutcome
  | [] => (s, none)
  | ["exit"] => (s, some (.exited s.status))
  | "exit" :: word :: _ =>
    match Integer.digits? word.toList with
    | some n => (s, some (.exited (.ofNat n)))
    | none => (s.complain ("exit: Illegal number: " ++ word) 2, some (.exited 2))
  | "cd" :: args =>
    let path := args.headD ((s.system.environment.lookup "HOME").getD "/")
    match s.system.enter path with
    | .ok system => ({ s with system, status := 0 }, none)
    | .error _ => (s.complain ("cd: can't cd to " ++ path) 2, none)
  | "kill" :: args =>
    match signal? args with
    | some signal =>
      -- Signal 0 only asks whether there is such a process.
      if args.contains processNumber && signal != 0 then
        (s, some (.signaled (.ofNat signal)))
      else ({ s with status := 0 }, none)
    | none => (s.complain "kill: Illegal option" 2, none)
  | word :: args =>
    match s.system.findProgram word with
    | .ok program =>
      let ending := runProgram inner program word args s.system
      ({ s.after ending with output := s.output ++ ending.output }, none)
    | .error .denied => (s.complain (word ++ ": Permission denied") 126, none)
    | .error _ => (s.complain (word ++ ": not found") 127, none)

/-- Runs a command, whose output may go to standard error. -/
def runCommand (inner : Inner) (command : Command) (s : Shell) : Shell × Option ProcessOutcome :=
  let (words, s) := expandWords inner s command.words
  let (after, outcome) := runWords inner { s with output := "" } words
  if command.toErrors then
    ({ after with output := s.output, errors := after.errors ++ after.output }, outcome)
  else ({ after with output := s.output ++ after.output }, outcome)

/-- Runs commands in turn, each one if the status before it is as its link says. -/
def runCommands (inner : Inner) (s : Shell) : List Command → Ending
  | [] => s.ending (.exited s.status)
  | command :: rest =>
    let isDue := match command.link with
      | .always => true
      | .onSuccess => s.status = 0
      | .onFailure => s.status ≠ 0
    if isDue then
      match runCommand inner command s with
      | (s, some outcome) => s.ending outcome
      | (s, none) => runCommands inner s rest
    else runCommands inner s rest

/-- Runs a script in a shell; `fuel` bounds how deep scripts run scripts. -/
def runScript : (fuel : Nat) → Inner
  | 0, _, s => s.ending (.exited 2)
  | fuel + 1, script, s =>
    match commands? script with
    | some commands => runCommands (runScript fuel) s commands
    | none => (s.complain "Syntax error" 2).ending (.exited 2)

end Shell

end HostScript
