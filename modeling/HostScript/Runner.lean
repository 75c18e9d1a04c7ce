import HostScript.Evaluation.Basic
import HostScript.Expr.Printer
import HostScript.Machine.Host
import HostScript.Reader.Basic

/-!
# Running a whole script

The command line: it names a file or standard input, whose forms are read and then evaluated in
turn, on any terminal. Each form gives one line of output with its number, the form and its result,
with a tab between them; warnings go to standard error before that line. A form that finishes the
script gives no line, and no form after it is evaluated.
-/

namespace HostScript.Runner

/-- Where the script comes from. -/
inductive Source where
  | usage
  | input (shown : String)
  | file (path : String)
deriving DecidableEq, Repr

/-- The source that the first argument names; later ones are ignored. -/
def Source.ofArguments : List String → Source
  | [] => .input "<stdin>"
  | "-" :: _ => .input "-"
  | "-h" :: _ => .usage
  | "--help" :: _ => .usage
  | path :: _ => .file path

/-- The status of a script that could not be run. -/
def refused : UInt8 := 2

/-- The line of a form. -/
def line (index : Nat) (form : Expr) (result : Except Signal Value) : String :=
  let shown := renderResult (result.mapError Signal.condition)
  toString index ++ "\t" ++ form.render ++ "\t" ++ shown ++ "\n"

section

variable {σ : Type} (t : Terminal σ)

/-- Writes the warnings that a form has left, and then its line. -/
def report (index : Nat) (form : Expr) (result : Except Signal Value) (s : Session σ) :
    Session σ :=
  let (warnings, s) := s.takeWarnings
  let state := warnings.foldl (fun state w => t.complain ("; warning: " ++ w ++ "\n") state) s.host
  { s with host := t.print (line index form result) state }

/-- Evaluates the forms from number `index` on; yields the status, and what the run leaves. -/
def runForms (settings : Settings) (index : Nat) : List Expr → Session σ → UInt8 × σ
  | [], s => (0, s.host)
  | form :: rest, s =>
    let (result, s) := s.evalForm ⟨t.host, settings⟩ form
    match t.finished? s.host with
    | some status => (status, s.host)
    | none => runForms settings (index + 1) rest (report t index form result s)

/-- Runs the script with the given text. -/
def runText (text : String) (state : σ) : UInt8 × σ :=
  match readForms text with
  | .error e => (refused, t.complain ("failed to parse forms: " ++ e.render ++ "\n") state)
  | .ok forms => runForms t (Settings.ofLookup (t.lookup state)) 1 forms { host := state }

/-- Runs the script in some bytes, which came from the source shown. -/
def runBytes (shown : String) (bytes : Except HostError (List UInt8)) (state : σ) : UInt8 × σ :=
  let failed (text : String) : UInt8 × σ :=
    (refused, t.complain ("failed to read " ++ shown ++ ": " ++ text ++ "\n") state)
  match bytes with
  | .error e => failed e.message
  | .ok bytes =>
    match Text.Utf8.decode? bytes with
    | none => failed "stream did not contain valid UTF-8"
    | some text => runText t text state

end

/-- Runs a command line on a machine that has the given bytes waiting on standard input. -/
def run (arguments : List String) (input : List UInt8) (m : Machine) : UInt8 × Machine :=
  match Source.ofArguments arguments with
  | .usage => (refused, Machine.terminal.complain "usage: eevo [FILE|-]\n" m)
  | .input shown => runBytes Machine.terminal shown (.ok input) m
  | .file path =>
    runBytes Machine.terminal path (m.readFile path)
      { m with input := Text.Utf8.decodeLossy input }

end HostScript.Runner
