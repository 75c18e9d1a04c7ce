import HostScript.Expr.Basic

/-!
# Nesting

How deep an expression is: an atom and the empty list count one, any other list one more than the
deepest of its items. The reader and the evaluator both have a limit on it.

`itemwise` is the induction over expressions that follows the items of a list.
-/

namespace HostScript.Expr

/-- Induction over expressions: what holds of all items of a list has to hold of the list. -/
@[elab_as_elim, induction_eliminator]
theorem itemwise {motive : Expr → Prop} (int : ∀ value, motive (.int value))
    (dec : ∀ value, motive (.dec value)) (symbol : ∀ name, motive (.symbol name))
    (text : ∀ content, motive (.text content))
    (list : ∀ items, (∀ e ∈ items, motive e) → motive (.list items)) : ∀ e, motive e
  | .int value => int value
  | .dec value => dec value
  | .symbol name => symbol name
  | .text content => text content
  | .list items => list items fun e _ => itemwise int dec symbol text list e
termination_by e => sizeOf e
decreasing_by
  rename_i h
  have := List.sizeOf_lt_of_mem h
  simp only [Expr.list.sizeOf_spec]
  omega

mutual

/-- The number of expressions on the longest way from an expression into its items. -/
def nesting : Expr → Nat
  | .list items => nestingAll items + 1
  | _ => 1

/-- The nesting of the deepest of some expressions. -/
def nestingAll : List Expr → Nat
  | [] => 0
  | e :: es => max (nesting e) (nestingAll es)

end

@[simp] theorem nesting_list (items : List Expr) :
    nesting (.list items) = nestingAll items + 1 := by
  rw [nesting]

@[simp] theorem nestingAll_nil : nestingAll [] = 0 := by
  rw [nestingAll]

@[simp] theorem nestingAll_cons (e : Expr) (es : List Expr) :
    nestingAll (e :: es) = max (nesting e) (nestingAll es) := by
  rw [nestingAll]

theorem nesting_pos (e : Expr) : 0 < nesting e := by
  cases e <;> simp [nesting]

theorem nestingAll_le_iff {es : List Expr} {n : Nat} :
    nestingAll es ≤ n ↔ ∀ e ∈ es, nesting e ≤ n := by
  induction es with
  | nil => simp
  | cons e es ih => rw [nestingAll_cons, Nat.max_le, ih, List.forall_mem_cons]

theorem nesting_lt_of_mem {e : Expr} {items : List Expr} (h : e ∈ items) :
    nesting e < nesting (.list items) := by
  rw [nesting_list]
  exact Nat.lt_succ_of_le (nestingAll_le_iff.mp (Nat.le_refl _) e h)

@[simp] theorem nesting_quotation (e : Expr) : nesting e.quotation = nesting e + 1 := by
  have := nesting_pos e
  simp only [quotation, nesting_list, nestingAll_cons, nestingAll_nil, nesting]
  omega

end HostScript.Expr
