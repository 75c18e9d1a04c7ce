import HostScript.Reader.Atom
import HostScript.Text.Quoted

/-!
# Reading scripts

The reader is a machine that takes one character at a time (`State.step`). Its state holds what
the last character was part of, the lists and quotations that are open, and the forms that are
finished. A refusal says at which byte it happened: that of the character that was refused, or
the end of the text.

No fuel or measure is needed, since the machine never goes back. A form may stand inside at most
`depthLimit - 1` lists and quotations.
-/

namespace HostScript

/-- Why a text is refused. -/
inductive Reader.Fault where
  | unterminatedList
  | unterminatedText
  | unterminatedEscape
  | nothingToQuote
  | unexpectedClose
  | tooDeep
deriving DecidableEq, Repr

/-- The wording of a refusal. -/
def Reader.Fault.message : Reader.Fault → String
  | .unterminatedList => "unterminated list"
  | .unterminatedText => "unterminated string"
  | .unterminatedEscape => "unterminated escape in string"
  | .nothingToQuote => "nothing to quote"
  | .unexpectedClose => "unexpected ')'"
  | .tooDeep => "nesting too deep"

/-- A refused text: why, and at which byte. -/
structure ParseError where
  position : Nat
  fault : Reader.Fault
deriving DecidableEq, Repr

def ParseError.message (e : ParseError) : String := e.fault.message

/-- The refusal as it is reported. -/
def ParseError.render (e : ParseError) : String :=
  "parse error at " ++ toString e.position ++ ": " ++ e.message

namespace Reader

/-! ## Bytes -/

/-- The number of bytes of a text. -/
def byteLength : List Char → Nat
  | [] => 0
  | c :: rest => c.utf8Size + byteLength rest

@[simp] theorem byteLength_nil : byteLength [] = 0 := rfl

@[simp] theorem byteLength_cons (c : Char) (rest : List Char) :
    byteLength (c :: rest) = c.utf8Size + byteLength rest := rfl

@[simp] theorem byteLength_append (as bs : List Char) :
    byteLength (as ++ bs) = byteLength as + byteLength bs := by
  induction as with
  | nil => simp
  | cons c as ih => simp [ih, Nat.add_assoc]

/-! ## States -/

/-- The number of lists and quotations around a form at which the reader gives up. -/
def depthLimit : Nat := 1000

/-- What the last character was part of. The characters of an atom or a text read so far come
latest first. -/
inductive Mode where
  | between
  | comment
  | atom (read : List Char)
  | text (read : List Char)
  | escape (read : List Char)
deriving Repr

/-- A list that is open, with its items so far, latest first, or a quote mark that waits for its
form. -/
inductive Frame where
  | list (items : List Expr)
  | quotation

/-- A state of the reader: the innermost open frame comes first, the latest finished form too. -/
structure State where
  mode : Mode := .between
  stack : List Frame := []
  forms : List Expr := []

namespace State

/-! ## Steps -/

/-- Puts a finished form where it belongs: a waiting quote mark takes it and is finished with it,
an open list takes it as its next item, and outside of both it is a form of the script. -/
def deliver (forms : List Expr) : List Frame → Expr → State
  | [], e => { forms := e :: forms }
  | .list items :: stack, e => { stack := .list (e :: items) :: stack, forms }
  | .quotation :: stack, e => deliver forms stack e.quotation

/-- Goes on with a form that is finished. -/
def finish (s : State) (e : Expr) : State := deliver s.forms s.stack e

/-- Begins a form with its first character, which is neither blank nor a closing parenthesis. -/
def openForm (s : State) (c : Char) : Except Fault State :=
  if depthLimit ≤ s.stack.length then .error .tooDeep
  else if c = '(' then .ok { s with mode := .between, stack := .list [] :: s.stack }
  else if c = '\'' then .ok { s with mode := .between, stack := .quotation :: s.stack }
  else if c = '"' then .ok { s with mode := .text [] }
  else .ok { s with mode := .atom [c] }

/-- Takes a closing parenthesis. After a quote mark it stands in the place of a form. -/
def close (s : State) : Except Fault State :=
  match s.stack with
  | .list items :: stack => .ok (deliver s.forms stack (.list items.reverse))
  | .quotation :: _ =>
    if depthLimit ≤ s.stack.length then .error .tooDeep else .error .unexpectedClose
  | [] => .error .unexpectedClose

/-- Takes a character that is part of nothing yet. -/
def stepBetween (s : State) (c : Char) : Except Fault State :=
  if Text.isBlank c then .ok { s with mode := .between }
  else if c = ';' then .ok { s with mode := .comment }
  else if c = ')' then s.close
  else s.openForm c

/-- Takes one character. -/
def step (s : State) (c : Char) : Except Fault State :=
  match s.mode with
  | .between => s.stepBetween c
  | .comment => .ok (if c = '\n' then { s with mode := .between } else s)
  | .atom read =>
    if isDelimiter c then (s.finish (Reader.atom read.reverse)).stepBetween c
    else .ok { s with mode := .atom (c :: read) }
  | .text read =>
    if c = '"' then .ok (s.finish (.text (String.ofList read.reverse)))
    else if c = '\\' then .ok { s with mode := .escape read }
    else .ok { s with mode := .text (c :: read) }
  | .escape read => .ok { s with mode := .text (Text.unescape c ++ read) }

/-! ## Texts -/

/-- Takes the characters of a text that starts at the given byte. -/
def run (s : State) (position : Nat) : List Char → Except ParseError State
  | [] => .ok s
  | c :: rest =>
    match s.step c with
    | .ok s => s.run (position + c.utf8Size) rest
    | .error fault => .error ⟨position, fault⟩

/-- A text is taken as its two parts are, one after the other. -/
theorem run_append (s : State) (position : Nat) (as bs : List Char) :
    s.run position (as ++ bs) =
      match s.run position as with
      | .ok s => s.run (position + byteLength as) bs
      | .error e => .error e := by
  induction as generalizing s position with
  | nil => rfl
  | cons c as ih =>
    simp only [List.cons_append, run, byteLength_cons]
    cases s.step c with
    | error fault => rfl
    | ok s => simp only [ih, Nat.add_assoc]

/-- The forms, if nothing is open. -/
def closed (s : State) : Except Fault (List Expr) :=
  match s.stack with
  | [] => .ok s.forms.reverse
  | .list _ :: _ => .error .unterminatedList
  | .quotation :: _ => .error .nothingToQuote

/-- Ends the text. -/
def done (s : State) : Except Fault (List Expr) :=
  match s.mode with
  | .between | .comment => s.closed
  | .atom read => (s.finish (Reader.atom read.reverse)).closed
  | .text _ => .error .unterminatedText
  | .escape _ => .error .unterminatedEscape

end State

/-- The forms of a text, in order. -/
def formsOfChars (cs : List Char) : Except ParseError (List Expr) :=
  match ({} : State).run 0 cs with
  | .error e => .error e
  | .ok s =>
    match s.done with
    | .ok forms => .ok forms
    | .error fault => .error ⟨byteLength cs, fault⟩

end Reader

/-- The forms of a script. -/
def readForms (source : String) : Except ParseError (List Expr) :=
  Reader.formsOfChars source.toList

end HostScript
