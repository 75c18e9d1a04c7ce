import HostScript.Runner

/-!
# The command line

Hands arguments, variables, standard input and the file that holds the script to `Runner`, and what
comes out of it to the standard streams. The script runs on a usual machine of its own.
-/

namespace HostScript.Main

/-- The variables that a script's run depends on. -/
def variableNames : List String :=
  [Settings.maxDepthVariable, Settings.timeScaleVariable, Settings.strictSysArgsVariable, "PWD"]

/-- The bytes of a file, or why they cannot be read. -/
def readFile (path : String) : IO (Except HostError (List UInt8)) := do
  try
    let bytes ← IO.FS.readBinFile path
    pure (.ok bytes.toList)
  catch
    | .noFileOrDirectory .. => pure (.error .missing)
    | .permissionDenied .. => pure (.error .denied)
    | .inappropriateType .. => pure (.error .isADirectory)
    | e => pure (.error ⟨.other, toString e⟩)

end HostScript.Main

open HostScript in
/-- Runs the script that the arguments name. -/
def main (arguments : List String) : IO UInt32 := do
  let values ← Main.variableNames.mapM fun name => do pure (name, ← IO.getEnv name)
  let environment := values.filterMap fun (name, value) => value.map (name, ·)
  let machine : Machine := { environment }
  let (status, after) ← match Runner.Source.ofArguments arguments with
    | .file path => do
      pure (Runner.runBytes Machine.terminal path (← Main.readFile path) machine)
    | .usage => pure (Runner.run arguments [] machine)
    | .input _ => do
      let input ← IO.FS.readBinFile "/dev/stdin"
      pure (Runner.run arguments input.toList machine)
  (← IO.getStdout).putStr after.output
  (← IO.getStderr).putStr after.errors
  pure status.toUInt32
