import HostScript.Expr.Basic

/-!
# Values

What evaluation yields. Lists are chains of pairs that end in `nil`; a chain may also end in any
other value. Equality is structural and compares decimals as numbers.
-/

namespace HostScript

/-- A value. -/
inductive Value where
  /-- The result of an operation done for its effect alone. -/
  | void
  /-- The empty list, which also ends a chain of pairs. -/
  | nil
  | int (value : Int64)
  | dec (value : Binary64)
  | text (content : String)
  | symbol (name : String)
  | pair (car cdr : Value)
  /-- Named fields in order. -/
  | record (fields : List (String × Value))
  /-- One of the operations on the host, by name. -/
  | primitive (name : String)
deriving Repr, Inhabited

namespace Value

/-! ## Kinds -/

/-- The kind of a value. -/
inductive Tag where
  | void | nil | int | dec | text | symbol | pair | record | primitive
deriving DecidableEq, Repr

/-- The name of a kind. -/
def Tag.name : Tag → String
  | .void => "Void"
  | .nil => "Nil"
  | .int => "Int"
  | .dec => "Dec"
  | .text => "Text"
  | .symbol => "Symbol"
  | .pair => "Pair"
  | .record => "Record"
  | .primitive => "Prim"

/-- The name of the test for a kind. -/
def Tag.predicate : Tag → String
  | .void => "voidp"
  | .nil => "nilp"
  | .int => "integerp"
  | .dec => "decimalp"
  | .text => "textp"
  | .symbol => "symbolp"
  | .pair => "pairp"
  | .record => "recordp"
  | .primitive => "primitivep"

def tag : Value → Tag
  | void => .void
  | nil => .nil
  | int _ => .int
  | dec _ => .dec
  | text _ => .text
  | symbol _ => .symbol
  | pair .. => .pair
  | record _ => .record
  | primitive _ => .primitive

def isNil : Value → Bool
  | nil => true
  | _ => false

/-- The content of a text. -/
def text? : Value → Option String
  | text content => some content
  | _ => none

theorem tag_eq_text_iff {v : Value} : v.tag = .text ↔ ∃ content, v = text content := by
  cases v <;> simp [tag]

theorem tag_eq_int_iff {v : Value} : v.tag = .int ↔ ∃ n, v = int n := by
  cases v <;> simp [tag]

theorem text?_eq_some_iff {v : Value} {content : String} :
    v.text? = some content ↔ v = text content := by
  cases v <;> simp [text?]

theorem text?_eq_none_iff {v : Value} : v.text? = none ↔ v.tag ≠ .text := by
  cases v <;> simp [text?, tag]

/-! ## Lists -/

/-- The chain of pairs that holds the given values and ends in `nil`. -/
def ofList : List Value → Value
  | [] => nil
  | v :: vs => pair v (ofList vs)

@[simp] theorem ofList_nil : ofList [] = nil := rfl

@[simp] theorem ofList_cons (v : Value) (vs : List Value) :
    ofList (v :: vs) = pair v (ofList vs) := rfl

/-! ## Equality -/

theorem sizeOf_pos (v : Value) : 0 < sizeOf v := by
  cases v <;> simp +arith

mutual

/-- Whether two values are equal. -/
def equal : Value → Value → Bool
  | void, void => true
  | nil, nil => true
  | int a, int b => a == b
  | dec a, dec b => a == b
  | text a, text b => a == b
  | symbol a, symbol b => a == b
  | pair a as, pair b bs => equalChains a as b bs
  | record as, record bs => equalFields as bs
  | primitive a, primitive b => a == b
  | _, _ => false
termination_by v => sizeOf v

/-- Whether two chains of pairs are equal, given by their first values and what follows these. The
chains are walked side by side for as long as both go on. -/
def equalChains (a as b bs : Value) : Bool :=
  if equal a b then
    match as, bs with
    | pair a as, pair b bs => equalChains a as b bs
    | as, bs => equal as bs
  else false
termination_by sizeOf a + sizeOf as
decreasing_by
  · exact Nat.lt_add_of_pos_right (sizeOf_pos as)
  · rw [pair.sizeOf_spec]
    omega
  · exact Nat.lt_add_of_pos_left (sizeOf_pos a)

/-- Whether two lists of fields have the same names and equal values in the same order. -/
def equalFields : List (String × Value) → List (String × Value) → Bool
  | [], [] => true
  | (m, a) :: as, (n, b) :: bs => m == n && equal a b && equalFields as bs
  | _, _ => false
termination_by fields => sizeOf fields

end

instance : BEq Value := ⟨equal⟩

/-! ## Quoting -/

mutual

/-- The value that stands for an expression as data. -/
def ofExpr : Expr → Value
  | .int value => int value
  | .dec value => dec value
  | .symbol name => symbol name
  | .text content => text content
  | .list items => ofExprs items

/-- The chain of the values that stand for a list of expressions. -/
def ofExprs : List Expr → Value
  | [] => nil
  | e :: es => pair (ofExpr e) (ofExprs es)

end

theorem ofExprs_eq_ofList (es : List Expr) : ofExprs es = ofList (es.map ofExpr) := by
  induction es with
  | nil => simp [ofExprs]
  | cons e es ih => simp [ofExprs, ih]

end Value

end HostScript
