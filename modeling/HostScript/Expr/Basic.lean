import HostScript.Number.Binary64

/-!
# Expressions

The trees that a script is read into. Equality compares decimals as numbers, so a tree that holds
something that is not a number differs from itself.
-/

namespace HostScript

/-- A form of a script. -/
inductive Expr where
  | int (value : Int64)
  | dec (value : Binary64)
  | symbol (name : String)
  | text (content : String)
  | list (items : List Expr)
deriving Repr, Inhabited

namespace Expr

mutual

/-- Whether two expressions are equal. -/
def equal : Expr → Expr → Bool
  | int a, int b => a == b
  | dec a, dec b => a == b
  | symbol a, symbol b => a == b
  | text a, text b => a == b
  | list as, list bs => equalAll as bs
  | _, _ => false

/-- Whether two lists of expressions are equal item by item. -/
def equalAll : List Expr → List Expr → Bool
  | [], [] => true
  | a :: as, b :: bs => equal a b && equalAll as bs
  | _, _ => false

end

instance : BEq Expr := ⟨equal⟩

/-- The form that a quote mark before `e` stands for. -/
def quotation (e : Expr) : Expr := .list [.symbol "quote", e]

end Expr

end HostScript
