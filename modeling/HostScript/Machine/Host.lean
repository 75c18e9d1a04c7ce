import HostScript.Host.Terminal
import HostScript.Machine.Shell.Basic

/-!
# Machines

A small machine that scripts can run on: a system with what was written to the two output streams,
a clock, and the status with which the script finished, if it did. Once it has, requests change
nothing any more.
-/

namespace HostScript

/-- The state of a machine. -/
structure Machine extends System where
  /-- What has been written to standard output. -/
  output : String := ""
  /-- What has been written to standard error. -/
  errors : String := ""
  /-- The processor time used so far, in nanoseconds. -/
  cpuTime : Nat := 0
  /-- The status with which the script finished. -/
  finished : Option UInt8 := none

namespace Machine

/-- How deep shell scripts may run shell scripts. -/
def scriptDepth : Nat := 64

/-- How much processor time passes between two readings of the clock, in nanoseconds. -/
def clockStep : Nat := 1000000

/-- The time of day of every machine. -/
def timeOfDay : Int64 := 1700000000

/-- The machine after a process. -/
def after (m : Machine) (e : Ending) : Machine :=
  { m with
    toSystem := m.toSystem.after e.system
    output := m.output ++ e.output
    errors := m.errors ++ e.errors }

/-- Runs a command and waits for its end. -/
def runProcess (m : Machine) (argv : ArgVector) : Except HostError ProcessOutcome × Machine :=
  match argv.words with
  | [] => (.error ⟨.invalidInput, "empty argument vector"⟩, m)
  | word :: args =>
    match m.findProgram word with
    | .error e => (.error e.hostError, m)
    | .ok program =>
      let ending := Shell.runProgram (Shell.runScript scriptDepth) program word args m.toSystem
      (.ok ending.outcome, m.after ending)

/-- Makes a directory the working directory. -/
def setCurrentDir (m : Machine) (path : String) : Except HostError Unit × Machine :=
  if path.toList.contains '\x00' then (.error .nulInName, m)
  else match m.enter path with
    | .ok system => (.ok (), { m with toSystem := system })
    | .error e => (.error e.hostError, m)

/-- The path of the working directory. -/
def currentDir (m : Machine) : Except HostError Path :=
  match m.workingPath with
  | .ok path => .ok (.ofText path)
  | .error e => .error e.hostError

/-- The answer of a machine on which the script still runs. -/
def answer : (request : Request) → Machine → request.Answer × Machine
  | .currentDir, m => (m.currentDir, m)
  | .pwdHint, m => ((m.environment.lookup "PWD").map Path.ofText, m)
  | .unixTime, m => (timeOfDay, m)
  | .cpuTime, m => (⟨m.cpuTime⟩, { m with cpuTime := m.cpuTime + clockStep })
  | .setCurrentDir path, m => m.setCurrentDir path
  | .runProcess argv, m => m.runProcess argv
  | .exit status, m => ((), { m with finished := some status })

/-- The host that a machine is. -/
def host : Host Machine where
  answer request m :=
    let (result, after) := answer request m
    (result, if m.finished.isSome then m else after)

/-- The terminal that a machine is. -/
def terminal : Terminal Machine where
  host
  lookup m name := m.environment.lookup name
  print text m := { m with output := m.output ++ text }
  complain text m := { m with errors := m.errors ++ text }
  finished? := finished

/-- The bytes of a file, as far as they are known: no file has any. -/
def readFile (m : Machine) (path : String) : Except HostError (List UInt8) :=
  match m.resolve path with
  | .ok (_, .directory _) => .error .isADirectory
  | .ok _ => .ok []
  | .error e => .error e.hostError

end Machine

end HostScript
