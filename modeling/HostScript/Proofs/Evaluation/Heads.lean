import HostScript.Proofs.Evaluation.Calls

/-!
# Ways to write the head of a call

A call depends on the callable that it reaches, and not on how its head is written. There are three
ways: the head is a name of the callable; it is a name that is defined as a primitive, which is
looked up before it is evaluated; or it is any other expression that has a primitive as its value.

Names of one callable can be put for each other (`eval_named_call_congr`). A head that is evaluated
does so first and once, and what follows is the call by name in the session that it leaves
(`eval_call_of_value`). Some heads leave it as it was: names that are defined as the primitive, and
sequences of one head that stands for it, however deep (`Session.StandsFor`).
-/

namespace HostScript

variable {σ : Type}

open Evaluation

/-- The expression has the primitive as its value and leaves the session as it is, with `n`
evaluations inside each other. -/
inductive Session.StandsFor (s : Session σ) (p : Primitive) : Nat → Expr → Prop
  | name {name : String} : Builtin.ofName? name = some (.primitive p) →
    StandsFor s p 1 (.symbol name)
  | definition {name : String} : isConstantName name = false → Builtin.ofName? name = none →
    s.globals.get? name = some (.primitive p.descriptor.name) → StandsFor s p 1 (.symbol name)
  | sequence {n : Nat} {e : Expr} : StandsFor s p n e →
    StandsFor s p (n + 1) (.list [.symbol "do", e])

namespace Interpreter

variable {i : Interpreter σ} {d : Nat}

/-- **Names of one callable can be put for each other.** -/
theorem eval_named_call_congr {name other : String} {b : Builtin}
    (hname : Builtin.ofName? name = some b) (hother : Builtin.ofName? other = some b)
    (operands : List Expr) :
    i.eval d (.list (.symbol name :: operands)) = i.eval d (.list (.symbol other :: operands)) := by
  by_cases hd : d < i.settings.maxDepth.toNat
  · rw [eval_named_call hd hname, eval_named_call hd hother]
  · rw [eval_call, eval_call, within_of_not_lt hd, within_of_not_lt hd]

/-- **A head that has a callable as its value is evaluated first, and then the callable is called as
if by name.** -/
theorem eval_call_of_value {head : Expr} (hhead : head.IsComputed) {own name : String} {b : Builtin}
    (hown : Builtin.ofName? own = some b) (hname : Builtin.ofName? name = some b)
    {s t : Session σ} (h : i.eval (d + 1) head s = (.ok (.primitive own), t))
    (operands : List Expr) :
    i.eval d (.list (head :: operands)) s = i.eval d (.list (.symbol name :: operands)) t := by
  have hd := lt_maxDepth_of_eval_ok h
  have hcallee : (calleeOfValue (.primitive own) : Evaluation σ Builtin) = pure b := by
    simp only [calleeOfValue, hown]
  calc i.eval d (.list (head :: operands)) s
      = (calleeOfValue (.primitive own) >>= fun b => i.call (d + 1) b operands) t :=
        eval_computed_call hhead h (by simp) (by simp) operands
    _ = i.call (d + 1) b operands t := by rw [hcallee, pure_bind]
    _ = i.eval d (.list (.symbol name :: operands)) t := by
        rw [eval_named_call (by omega) hname]

/-- A name of a primitive has the primitive as its value. -/
theorem variableValue_of_primitive {name : String} {p : Primitive}
    (hname : Builtin.ofName? name = some (.primitive p)) (s : Session σ) :
    variableValue name s = (.ok (.primitive p.descriptor.name), s) := by
  have hnil : name ≠ "Nil" := by
    rintro rfl
    cases hname
  have hvoid : name ≠ "Void" := by
    rintro rfl
    cases hname
  simp only [variableValue, if_neg hnil, if_neg hvoid, hname]
  rfl

/-- Any other name has the value that it is defined as. -/
theorem variableValue_of_get? {name : String} (hconstant : isConstantName name = false)
    (hname : Builtin.ofName? name = none) {s : Session σ} {v : Value}
    (hget : s.globals.get? name = some v) : variableValue name s = (.ok v, s) := by
  simp only [isConstantName, Bool.or_eq_false_iff, decide_eq_false_iff_not] at hconstant
  simp only [variableValue, if_neg hconstant.1, if_neg hconstant.2, hname, globals_bind_apply, hget]
  rfl

/-- What stands for a primitive has it as its value and changes nothing. -/
theorem eval_of_standsFor {s : Session σ} {p : Primitive} {n : Nat} {e : Expr}
    (h : s.StandsFor p n e) (hlimit : d + n ≤ i.settings.maxDepth.toNat) :
    i.eval d e s = (.ok (.primitive p.descriptor.name), s) := by
  induction h generalizing d with
  | name hname => rw [eval, within_of_lt (by omega), variableValue_of_primitive hname]
  | definition hconstant hname hget =>
    rw [eval, within_of_lt (by omega), variableValue_of_get? hconstant hname hget]
  | sequence _ ih =>
    have hinner := ih (d := d + 1) (by omega)
    rw [eval_named_call (by omega) (b := .form .sequence) rfl, call_sequence, evalSequence,
      bind_ok hinner, evalSequence]
    rfl

/-- **What a call does depends on the callable that it reaches, and not on how its head is
written.** If the head is no name of a callable and has one as its value, the call does what the
call by any name of the callable does in the session that the head leaves; if the head stands for a
primitive, that is the session in which it was. The second names of `cd` and `exit` are as good as
the first ones. -/
theorem eval_call_congr_head (i : Interpreter σ) (d : Nat) (operands : List Expr) :
    (∀ (head : Expr) (own name : String) (b : Builtin) (s t : Session σ), head.IsComputed →
      Builtin.ofName? own = some b → Builtin.ofName? name = some b →
      i.eval (d + 1) head s = (.ok (.primitive own), t) →
        i.eval d (.list (head :: operands)) s = i.eval d (.list (.symbol name :: operands)) t) ∧
    (∀ (head : Expr) (p : Primitive) (n : Nat) (name : String) (s : Session σ), head.IsComputed →
      s.StandsFor p n head → d + 1 + n ≤ i.settings.maxDepth.toNat →
      Builtin.ofName? name = some (.primitive p) →
        i.eval d (.list (head :: operands)) s = i.eval d (.list (.symbol name :: operands)) s) ∧
    (∀ s, i.eval d (.list (.symbol "cd!" :: operands)) s =
      i.eval d (.list (.symbol "cd" :: operands)) s) ∧
    ∀ s, i.eval d (.list (.symbol "exit!" :: operands)) s =
      i.eval d (.list (.symbol "exit" :: operands)) s := by
  refine ⟨?_, ?_, fun s => ?_, fun s => ?_⟩
  · intro head own name b s t hhead hown hname h
    exact eval_call_of_value hhead hown hname h operands
  · intro head p n name s hhead hstands hlimit hname
    have hvalue := eval_of_standsFor hstands hlimit
    have hown : Builtin.ofName? p.descriptor.name = some (.primitive p) :=
      Builtin.ofName?_name (.primitive p)
    exact eval_call_of_value hhead hown hname hvalue operands
  · have hcongr : i.eval d (.list (.symbol "cd!" :: operands)) =
        i.eval d (.list (.symbol "cd" :: operands)) :=
      eval_named_call_congr (b := .primitive .cd) rfl rfl operands
    rw [hcongr]
  · have hcongr : i.eval d (.list (.symbol "exit!" :: operands)) =
        i.eval d (.list (.symbol "exit" :: operands)) :=
      eval_named_call_congr (b := .primitive .exit) rfl rfl operands
    rw [hcongr]

/-- After `(def go cd!)` the list `((do (def x 1) (do go)) "/")` does what `(cd! "/")` does once `x`
is defined: it enters the directory. -/
theorem eval_call_congr_head_go :
    let i : Interpreter ScriptedHost := { host := ScriptedHost.host }
    let start : Session ScriptedHost := { host := { currentDir := .error .missing, unixTime := 0 } }
    let s := (i.eval 0 (.list [.symbol "def", .symbol "go", .symbol "cd!"]) start).2
    let inner : Expr := .list [.symbol "do", .symbol "go"]
    let head : Expr := .list [.symbol "do", .list [.symbol "def", .symbol "x", .int 1], inner]
    let t := (i.eval 1 head s).2
    head.IsComputed ∧ i.eval 1 head s = (.ok (.primitive "cd"), t) ∧
      Builtin.ofName? "cd!" = some (.primitive .cd) ∧ s.StandsFor .cd 2 inner ∧
      i.eval 0 (.list [head, .text "/"]) s = i.eval 0 (.list [.symbol "cd!", .text "/"]) t ∧
      i.eval 0 (.list [inner, .text "/"]) s = i.eval 0 (.list [.symbol "cd", .text "/"]) s ∧
      (i.eval 0 (.list [head, .text "/"]) s).2.requests.length = 1 := by
  intro i start s inner head t
  have hhead : head.IsComputed := by
    intro name hname
    simp [head] at hname
  have hinner : inner.IsComputed := by
    intro name hname
    simp [inner] at hname
  have hvalue : i.eval 1 head s = (.ok (.primitive "cd"), t) := rfl
  have hstands : s.StandsFor .cd 2 inner := .sequence (.definition rfl rfl rfl)
  obtain ⟨hcall, hplain, -, -⟩ := eval_call_congr_head i 0 [.text "/"]
  exact ⟨hhead, hvalue, rfl, hstands, hcall head "cd" "cd!" (.primitive .cd) s t hhead rfl rfl hvalue,
    hplain inner .cd 2 "cd" s hinner hstands (by decide) rfl, rfl⟩

end Interpreter

end HostScript
