import HostScript.Host.Basic

/-!
# Terminals

Where a command line runs: a host, the variables it was started with, and two streams to write to.
Requests and writing change the same state, since what a command writes goes to the same streams.
-/

namespace HostScript

/-- A host with what a command line needs besides. -/
structure Terminal (σ : Type) where
  host : Host σ
  /-- The text of a variable, if it is set. -/
  lookup : σ → String → Option String
  /-- Writes to standard output. -/
  print : String → σ → σ
  /-- Writes to standard error. -/
  complain : String → σ → σ
  /-- The status with which the script has finished, if it has. -/
  finished? : σ → Option UInt8

/-- Some output is all that was written to standard output: printing adds to it, complaining does
not, and the commands that the host runs only add to it, too. -/
structure Terminal.Appends {σ : Type} (t : Terminal σ) (output : σ → String) : Prop where
  print (text : String) (state : σ) : output (t.print text state) = output state ++ text
  complain (text : String) (state : σ) : output (t.complain text state) = output state
  answer (request : Request) (state : σ) :
    ∃ written, output (t.host.answer request state).2 = output state ++ written

/-- Output that stays as it is has the empty text added to it. -/
theorem exists_append_of_eq {before after : String} (h : after = before) :
    ∃ written, after = before ++ written := by
  refine ⟨"", ?_⟩
  rw [h, String.append_empty]

end HostScript
