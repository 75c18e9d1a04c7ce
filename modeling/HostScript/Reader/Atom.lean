import HostScript.Expr.Basic
import HostScript.Number.Literal
import HostScript.Text.Blank

/-!
# Atoms

A run of characters that are neither blank nor marks is an integer where it is an integer numeral
that fits 64 bits, otherwise a decimal where it looks like one and is read as a floating number,
otherwise a symbol. The look comes first, since the names of infinity and of what is not a number
are read as floating numbers too.
-/

namespace HostScript.Reader

/-- The characters that end an atom besides the blanks. -/
def isMark (c : Char) : Bool :=
  c = '(' || c = ')' || c = '\'' || c = '"' || c = ';'

/-- Whether an atom ends before `c`. -/
def isDelimiter (c : Char) : Bool := Text.isBlank c || isMark c

/-- The characters that decimals are written with. -/
def isDecimalChar (c : Char) : Bool :=
  c.isDigit || c = '.' || c = 'e' || c = 'E' || c = '+' || c = '-'

/-- Whether an atom looks like a decimal: after at most one sign it begins with a digit or a point,
has a digit somewhere, and has no other characters than decimals are written with. -/
def looksDecimal (cs : List Char) : Bool :=
  let body := (splitSign cs).2
  body.any Char.isDigit && body.all isDecimalChar &&
    body.head?.any fun c => c.isDigit || c = '.'

/-- The floating number that an atom's characters stand for. -/
def decimal? (cs : List Char) : Option Binary64 :=
  if looksDecimal cs then Binary64.ofChars? cs else none

/-- The expression that an atom's characters stand for. -/
def atom (cs : List Char) : Expr :=
  match Integer.int64? cs with
  | some value => .int value
  | none =>
    match decimal? cs with
    | some value => .dec value
    | none => .symbol (String.ofList cs)

end HostScript.Reader
