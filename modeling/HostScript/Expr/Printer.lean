import HostScript.Expr.Basic
import HostScript.Number.Shortest
import HostScript.Text.Quoted

/-!
# Writing expressions

An expression is written on one line: lists in parentheses with single spaces, the empty list as
`Nil`, and a quotation with a quote mark.
-/

namespace HostScript.Expr

mutual

/-- The expression as it is written. -/
def chars : Expr → List Char
  | int value => Integer.chars value.toInt
  | dec value => value.chars
  | symbol name => name.toList
  | text content => Text.quote content.toList
  | list [] => ['N', 'i', 'l']
  | list [symbol name, operand] =>
    if name = "quote" then '\'' :: chars operand
    else '(' :: name.toList ++ ' ' :: chars operand ++ [')']
  | list (head :: tail) => '(' :: chars head ++ tailChars tail ++ [')']

/-- The items of a list after its first, each with a space before it. -/
def tailChars : List Expr → List Char
  | [] => []
  | item :: rest => ' ' :: chars item ++ tailChars rest

end

/-- The expression as text. -/
def render (e : Expr) : String := String.ofList e.chars

end HostScript.Expr
