import HostScript.Value.Basic
import HostScript.Number.Shortest
import HostScript.Text.Quoted

/-!
# Writing values

A value is written on one line. A chain of pairs is a list in parentheses, with its last value
after a dot where that is not `nil`; the list of the symbol `quote` and one value is that value
after a quote mark.
-/

namespace HostScript.Value

/-- Where a value stands: by itself, or as what follows the pairs of a chain. -/
inductive Place where
  | alone | tail
deriving DecidableEq, Repr

/-- What comes before a last value of a chain other than `nil`. -/
def Place.dot : Place → List Char
  | .alone => []
  | .tail => [' ', '.', ' ']

mutual

/-- The value as it is written in the given place. -/
def charsAt : Place → Value → List Char
  | .alone, nil => ['N', 'i', 'l']
  | .tail, nil => []
  | .alone, pair (symbol name) (pair operand nil) =>
    if name = "quote" then '\'' :: charsAt .alone operand
    else '(' :: name.toList ++ ' ' :: charsAt .alone operand ++ [')']
  | .alone, pair car cdr => '(' :: charsAt .alone car ++ charsAt .tail cdr ++ [')']
  | .tail, pair car cdr => ' ' :: charsAt .alone car ++ charsAt .tail cdr
  | place, void => place.dot ++ ['V', 'o', 'i', 'd']
  | place, int value => place.dot ++ Integer.chars value.toInt
  | place, dec value => place.dot ++ value.chars
  | place, text content => place.dot ++ Text.quote content.toList
  | place, symbol name => place.dot ++ name.toList
  | place, record fields => place.dot ++ '\x7b' :: fieldsChars [] fields ++ ['\x7d']
  | place, primitive name => place.dot ++ "#<primitive ".toList ++ name.toList ++ ['>']

/-- Fields as they are written, with a comma between two of them and `before` before the first. -/
def fieldsChars (before : List Char) : List (String × Value) → List Char
  | [] => []
  | (name, value) :: rest =>
    before ++ name.toList ++ [':', ' '] ++ charsAt .alone value ++ fieldsChars [',', ' '] rest

end

/-- The value as it is written. -/
def chars (v : Value) : List Char := charsAt .alone v

/-- The value as text. -/
def render (v : Value) : String := String.ofList v.chars

end HostScript.Value
