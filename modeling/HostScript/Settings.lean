import HostScript.Number.Literal
import HostScript.Text.Blank

/-!
# Settings

What a session can be told about evaluation, and the variables from which it is read. A variable
with a text that does not fit leaves its setting as it was.
-/

namespace HostScript

/-- How forms are evaluated. -/
structure Settings where
  /-- How many evaluations may be in progress inside each other. -/
  maxDepth : UInt64 := 200
  /-- What the seconds of processor time are multiplied by. -/
  timeScale : Binary64 := .hundred
  /-- Whether a command with an argument that is not text is refused, instead of run without it. -/
  strictSysArgs : Bool := false
deriving DecidableEq, Repr

namespace Settings

/-- The variable that sets the depth limit. -/
def maxDepthVariable : String := "EEVO_MAX_DEPTH"

/-- The variable that sets the time scale. -/
def timeScaleVariable : String := "EEVO_TIME_SCALE"

/-- The variable that sets strictness about arguments. -/
def strictSysArgsVariable : String := "EEVO_STRICT_SYS"

/-- A depth limit: a positive whole number. -/
def maxDepth? (text : String) : Option UInt64 :=
  (Integer.uint64? (Text.trim text.toList)).filter (0 < ·)

/-- A time scale: a positive finite number. -/
def timeScale? (text : String) : Option Binary64 :=
  (Binary64.ofChars? (Text.trim text.toList)).filter fun scale => scale.isFinite && scale.isPositive

/-- A choice, in any mixture of cases; the empty text is a no. -/
def choice? (text : String) : Option Bool :=
  match String.ofList ((Text.trim text.toList).map Char.toLower) with
  | "1" | "true" | "yes" | "on" => some true
  | "0" | "false" | "no" | "off" | "" => some false
  | _ => none

/-- The settings that the variables give. -/
def ofLookup (lookup : String → Option String) : Settings where
  maxDepth := ((lookup maxDepthVariable).bind maxDepth?).getD ({} : Settings).maxDepth
  timeScale := ((lookup timeScaleVariable).bind timeScale?).getD ({} : Settings).timeScale
  strictSysArgs :=
    ((lookup strictSysArgsVariable).bind choice?).getD ({} : Settings).strictSysArgs

end Settings

end HostScript
