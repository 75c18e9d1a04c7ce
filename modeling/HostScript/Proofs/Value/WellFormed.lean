import HostScript.Builtin
import HostScript.Signal

/-!
# Well-formed values

The type of values admits more than evaluation yields: chains of pairs with any end, records with
any fields, primitives by any name. A *datum* is what can be written down and quoted: a number, a
text, a symbol, or a list of data. Besides data, a well-formed value is nothing, a primitive by its
own name, or the record of a process that a signal ended (`Value.WellFormed`), and none of these
three stands in a list.
-/

namespace HostScript

namespace Value

/-- What can be quoted: numbers, texts, symbols, and chains of these that end in `nil`. -/
inductive Datum : Value → Prop
  | int (value : Int64) : Datum (.int value)
  | dec (value : Binary64) : Datum (.dec value)
  | text (content : String) : Datum (.text content)
  | symbol (name : String) : Datum (.symbol name)
  | list {vs : List Value} : (∀ v ∈ vs, Datum v) → Datum (.ofList vs)

/-- What evaluation yields. -/
inductive WellFormed : Value → Prop
  | datum {v : Value} : v.Datum → WellFormed v
  | void : WellFormed .void
  | primitive (p : Primitive) : WellFormed (.primitive p.descriptor.name)
  | signaled (command : String) (signal : Int64) :
    WellFormed (.record [("command", .text command), ("signal", .int signal)])

/-- **What is quoted is a datum.** -/
theorem datum_ofExpr : ∀ e : Expr, (ofExpr e).Datum
  | .int value => by rw [ofExpr]; exact .int value
  | .dec value => by rw [ofExpr]; exact .dec value
  | .symbol name => by rw [ofExpr]; exact .symbol name
  | .text content => by rw [ofExpr]; exact .text content
  | .list items => by
    rw [ofExpr, ofExprs_eq_ofList]
    refine .list fun v hv => ?_
    obtain ⟨e, he, rfl⟩ := List.mem_map.mp hv
    exact datum_ofExpr e

theorem Datum.nil : Datum .nil := by
  rw [← ofList_nil]
  exact .list (by simp)

end Value

namespace Signal

/-- The value that a signal complains about. -/
def culprit? : Signal → Option Value
  | wrongTypeArgument _ actual => some actual
  | invalidFunction value => some value
  | _ => none

/-- Apart from the value that it complains about, a signal carries symbols, integers and texts. -/
theorem wellFormed_of_mem_data {e : Signal} (h : ∀ v, e.culprit? = some v → v.WellFormed)
    {v : Value} (hv : v ∈ e.data) : v.WellFormed := by
  cases e with
  | wrongTypeArgument expected actual =>
    rw [data, List.mem_cons, List.mem_singleton] at hv
    rcases hv with rfl | rfl
    · exact .datum (.symbol _)
    · exact h _ rfl
  | invalidFunction value =>
    obtain rfl := List.mem_singleton.mp hv
    exact h _ rfl
  | wrongNumberOfArguments callee count =>
    rw [data, List.mem_cons, List.mem_singleton] at hv
    rcases hv with rfl | rfl
    · exact .datum (.symbol _)
    · exact .datum (.int _)
  | voidVariable name | voidFunction name | settingConstant name =>
    obtain rfl := List.mem_singleton.mp hv
    exact .datum (.symbol _)
  | excessiveNesting limit =>
    obtain rfl := List.mem_singleton.mp hv
    exact .datum (.int _)
  | hostFailure action error target =>
    simp only [data, List.mem_cons, List.not_mem_nil, or_false] at hv
    rcases hv with rfl | rfl | rfl <;> exact .datum (.text _)
  | missingCommand | nulInArgument =>
    obtain rfl := List.mem_singleton.mp hv
    exact .datum (.text _)

end Signal

end HostScript
