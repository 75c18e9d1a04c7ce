import HostScript.Host.ArgVector
import HostScript.Host.Error
import HostScript.Number.Binary64
import HostScript.Text.Utf8

/-!
# Hosts

What a script can ask of the machine it runs on. A host is a deterministic machine: it answers a
request out of its state and moves on to a new state. Whether the working directory can be read,
which time it is and how processes end is up to the host.
-/

namespace HostScript

/-- The path of a file, as bytes; they need not be the encoding of a text. -/
structure Path where
  bytes : List UInt8
deriving DecidableEq, Repr

/-- The path that a text names. -/
def Path.ofText (text : String) : Path := ⟨Text.Utf8.encode text⟩

/-- The path as text, with replacement characters where its bytes are none. -/
def Path.text (path : Path) : String := Text.Utf8.decodeLossy path.bytes

/-- A span of time in whole nanoseconds. -/
structure Duration where
  nanoseconds : Nat
deriving DecidableEq, Repr

namespace Duration

/-- How many nanoseconds make a second. -/
def perSecond : Nat := 1000000000

def ofParts (seconds nanoseconds : Nat) : Duration := ⟨seconds * perSecond + nanoseconds⟩

/-- The span from `start` to `stop`; none where the clock went back. -/
def between (start stop : Duration) : Duration := ⟨stop.nanoseconds - start.nanoseconds⟩

/-- The span in seconds: the whole seconds and the fraction are rounded each for itself, and their
sum is rounded again. -/
def seconds (d : Duration) : Binary64 :=
  let whole := Binary64.roundRank (d.nanoseconds / perSecond * Binary64.unitsPerOne) 1
  let fraction := Binary64.roundRank (d.nanoseconds % perSecond * Binary64.unitsPerOne) perSecond
  Binary64.ofUnits false (Binary64.units whole + Binary64.units fraction) 1

end Duration

/-- Something asked of the host. -/
inductive Request where
  | currentDir
  /-- The directory to name where the current one cannot be read. -/
  | pwdHint
  /-- Seconds since the beginning of 1970. -/
  | unixTime
  /-- The processor time used so far. -/
  | cpuTime
  | setCurrentDir (path : String)
  /-- Run a command and wait for its end. -/
  | runProcess (argv : ArgVector)
  /-- Finish with a status. A host that only notes the request answers, and the script goes on. -/
  | exit (status : UInt8)

/-- What the host answers to a request. -/
abbrev Request.Answer : Request → Type
  | .currentDir => Except HostError Path
  | .pwdHint => Option Path
  | .unixTime => Int64
  | .cpuTime => Duration
  | .setCurrentDir _ => Except HostError Unit
  | .runProcess _ => Except HostError ProcessOutcome
  | .exit _ => Unit

/-- A host with states of type `σ`. -/
structure Host (σ : Type) where
  answer : (request : Request) → σ → request.Answer × σ

end HostScript
