import HostScript.Host.Basic

/-!
# Scripted hosts

A host that follows a script, for trying out forms without a machine: directories exist as listed,
clock readings and process outcomes are dealt out in order, and an exit is noted only.
-/

namespace HostScript

/-- What a scripted host still has to say. -/
structure ScriptedHost where
  /-- The working directory, or why it cannot be read. -/
  currentDir : Except HostError Path
  /-- The directories that exist; all of them if there is no list. -/
  dirs : Option (List Path) := none
  /-- The directories that cannot be entered, as they are named in requests, and why. -/
  refusedDirs : List (String × HostError) := []
  pwdHint : Option Path := none
  unixTime : Int64
  /-- The readings of the processor clock that are left; after them it reads zero. -/
  cpuTimes : List Duration := []
  /-- The outcomes of the next processes; after them every process succeeds. -/
  outcomes : List (Except HostError ProcessOutcome) := []

namespace ScriptedHost

/-- The separator between the names of a path. -/
def slash : UInt8 := 47

/-- The path that a text names as seen from the working directory. A working directory that cannot
be read counts as an empty path, and dots are names like others. -/
def target (h : ScriptedHost) (text : String) : Path :=
  let path := Path.ofText text
  let base := match h.currentDir with
    | .ok dir => dir.bytes
    | .error _ => []
  if path.bytes.head? = some slash then path
  else if base.getLast? = some slash then ⟨base ++ path.bytes⟩
  else ⟨base ++ slash :: path.bytes⟩

/-- Enters a directory, unless it is refused or does not exist. -/
def setCurrentDir (h : ScriptedHost) (text : String) : Except HostError Unit × ScriptedHost :=
  match h.refusedDirs.lookup text with
  | some e => (.error e, h)
  | none =>
    let dir := h.target text
    let isKnown := match h.dirs with
      | none => true
      | some dirs => decide (dir ∈ dirs)
    if isKnown then (.ok (), { h with currentDir := .ok dir }) else (.error .missing, h)

/-- The host that follows such a script. -/
def host : Host ScriptedHost where
  answer
    | .currentDir, h => (h.currentDir, h)
    | .pwdHint, h => (h.pwdHint, h)
    | .unixTime, h => (h.unixTime, h)
    | .cpuTime, h => (h.cpuTimes.headD ⟨0⟩, { h with cpuTimes := h.cpuTimes.tail })
    | .setCurrentDir path, h => h.setCurrentDir path
    | .runProcess _, h =>
      (h.outcomes.headD (.ok (.exited 0)), { h with outcomes := h.outcomes.tail })
    | .exit _, h => ((), h)

end ScriptedHost

end HostScript
