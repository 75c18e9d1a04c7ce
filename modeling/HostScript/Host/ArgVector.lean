/-!
# Argument vectors

The words of a command as a process receives them: texts without the NUL character, which ends an
argument there. `ArgVector.ofList?` finds the first word that holds a NUL and the byte at which it
stands.
-/

namespace HostScript

/-- The words of a command; the first one names the program. -/
structure ArgVector where
  words : List String
  noNul : ∀ w ∈ words, '\x00' ∉ w.toList

/-- The first NUL character among the words of a command: in which word, and at which byte of it. -/
structure NulFault where
  index : Nat
  position : Nat
deriving DecidableEq, Repr

def NulFault.message (fault : NulFault) : String :=
  "argument " ++ toString fault.index ++ " contains a NUL byte at offset " ++
    toString fault.position

/-- The number of bytes before the first NUL character. -/
def nulPosition? : List Char → Option Nat
  | [] => none
  | c :: rest => if c = '\x00' then some 0 else (nulPosition? rest).map (c.utf8Size + ·)

theorem nulPosition?_eq_none_iff {cs : List Char} : nulPosition? cs = none ↔ '\x00' ∉ cs := by
  induction cs with
  | nil => simp [nulPosition?]
  | cons c rest ih =>
    by_cases h : c = '\x00'
    · simp [nulPosition?, h]
    · simp [nulPosition?, h, ih, Ne.symm h]

namespace ArgVector

/-- The words with index `index` and after it as an argument vector. -/
def ofListFrom (index : Nat) : List String → Except NulFault ArgVector
  | [] => .ok ⟨[], by simp⟩
  | w :: rest =>
    match h : nulPosition? w.toList with
    | some position => .error ⟨index, position⟩
    | none =>
      match ofListFrom (index + 1) rest with
      | .error fault => .error fault
      | .ok argv => .ok ⟨w :: argv.words, by
          simp only [List.mem_cons, forall_eq_or_imp]
          exact ⟨nulPosition?_eq_none_iff.1 h, argv.noNul⟩⟩

/-- The argument vector of the given words. -/
def ofList? (words : List String) : Except NulFault ArgVector := ofListFrom 0 words

def size (argv : ArgVector) : Nat := argv.words.length

def isEmpty (argv : ArgVector) : Bool := argv.words.isEmpty

/-- The name of the program. -/
def program? (argv : ArgVector) : Option String := argv.words.head?

/-- The words after the name of the program. -/
def arguments (argv : ArgVector) : List String := argv.words.tail

/-- The name of the program for messages; empty if there is none. -/
def programName (argv : ArgVector) : String := argv.program?.getD ""

theorem programName_eq_headD (argv : ArgVector) : argv.programName = argv.words.headD "" :=
  List.headD_eq_head?_getD.symm

end ArgVector

/-- How a process ended. -/
inductive ProcessOutcome where
  | exited (status : UInt8)
  | signaled (signal : Int32)
deriving DecidableEq, Repr

/-- A process succeeds by exiting with status 0. -/
def ProcessOutcome.isSuccess (outcome : ProcessOutcome) : Bool := outcome = .exited 0

end HostScript
