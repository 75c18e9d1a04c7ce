import HostScript.Evaluation.Primitives

/-!
# What primitives can do

A primitive asks the host, warns and fails, and nothing else: it neither looks a definition up nor
makes one. `Outward` are the steps of this kind, with the requests that they may make and the
failures that they may report. A primitive makes requests of its own kind only
(`Request.primitive?`), reports failures that concern its arguments or the host
(`Primitive.Failure`), and yields nothing, a text, an integer or the record of a signal
(`Primitive.Answer`).
-/

namespace HostScript

variable {σ : Type}

/-- Steps that are put together from requests to a host, warnings and failures. The predicates are
about the requests, the failures, and the values that the steps yield. -/
inductive Outward (host : Host σ) (asks : Request → Prop) (fails : Signal → Prop) :
    {α : Type} → (α → Prop) → Evaluation σ α → Prop
  | pure {α : Type} {p : α → Prop} {a : α} : p a → Outward host asks fails p (pure a)
  | fail {α : Type} {p : α → Prop} {e : Signal} :
    fails e → Outward host asks fails p (Evaluation.fail e)
  | warn (message : String) :
    Outward host asks fails (fun _ => True) (Evaluation.warn message)
  | ask (request : Request) :
    asks request → Outward host asks fails (fun _ => True) (Evaluation.ask host request)
  | bind {α β : Type} {p : α → Prop} {q : β → Prop} {x : Evaluation σ α}
    {f : α → Evaluation σ β} :
    Outward host asks fails p x → (∀ a, p a → Outward host asks fails q (f a)) →
      Outward host asks fails q (x >>= f)

/-- The primitive that a request is for. No primitive reads the processor clock. -/
def Request.primitive? : Request → Option Primitive
  | .setCurrentDir _ => some .cd
  | .currentDir => some .pwd
  | .pwdHint => some .pwd
  | .exit _ => some .exit
  | .unixTime => some .now
  | .runProcess _ => some .sys
  | .cpuTime => none

namespace Primitive

/-- What primitives yield. -/
inductive Answer : Value → Prop
  | void : Answer .void
  | text (content : String) : Answer (.text content)
  | int (value : Int64) : Answer (.int value)
  | signaled (command : String) (signal : Int64) :
    Answer (.record [("command", .text command), ("signal", .int signal)])

/-- The failures that a primitive reports when it is applied to the given arguments. -/
inductive Failure (p : Primitive) (args : List Value) : Signal → Prop
  | arity : p.descriptor.arity.accepts args.length = false →
    Failure p args (.wrongNumberOfArguments p.descriptor.name args.length)
  | type {v : Value} {expected : Value.Tag} : v ∈ args → v.tag ≠ expected →
    Failure p args (.wrongTypeArgument expected v)
  | host (action : Action) (error : HostError) (target : String) :
    Failure p args (.hostFailure action error target)
  | missingCommand : Failure p args .missingCommand
  | nulInArgument : Failure p args .nulInArgument

theorem Failure.ne_excessiveNesting {p : Primitive} {args : List Value} {e : Signal}
    (h : Failure p args e) (limit : UInt64) : e ≠ .excessiveNesting limit := by
  cases h <;> simp

/-! ## Refusals -/

theorem apply_of_not_accepts (i : Interpreter σ) {p : Primitive} {args : List Value}
    (h : p.descriptor.arity.accepts args.length = false) :
    p.apply i args = Evaluation.fail (.wrongNumberOfArguments p.descriptor.name args.length) := by
  match p, args with
  | cd, [] | exit, [] | pwd, _ :: _ | now, _ :: _ => rfl
  | cd, v :: _ :: _ | exit, v :: _ :: _ => cases v <;> rfl
  | cd, [_] | exit, [_] | pwd, [] | now, [] => cases h
  | sys, args => simp [descriptor, Arity.accepts] at h

theorem apply_cd_of_ne (i : Interpreter σ) {v : Value} (h : v.tag ≠ .text) :
    cd.apply i [v] = Evaluation.fail (.wrongTypeArgument .text v) := by
  cases v with
  | text content => exact absurd rfl h
  | _ => rfl

theorem apply_exit_of_ne (i : Interpreter σ) {v : Value} (h : v.tag ≠ .int) :
    exit.apply i [v] = Evaluation.fail (.wrongTypeArgument .int v) := by
  cases v with
  | int code => exact absurd rfl h
  | _ => rfl

/-! ## The steps of each primitive -/

section Steps

variable (host : Host σ) (args : List Value)

theorem outward_changeDir (path : String) :
    Outward host (·.primitive? = some cd) (Failure cd args) Answer (changeDir host path) := by
  refine .bind (.ask _ rfl) fun answer _ => ?_
  match answer with
  | .ok () => exact .pure .void
  | .error e => exact .bind (.warn _) fun _ _ => .fail (.host _ _ _)

theorem outward_workingDir :
    Outward host (·.primitive? = some pwd) (Failure pwd args) Answer (workingDir host) := by
  refine .bind (.ask _ rfl) fun answer _ => ?_
  match answer with
  | .ok path => exact .pure (.text _)
  | .error e => exact .bind (.warn _) fun _ _ => .bind (.ask _ rfl) fun _ _ => .pure (.text _)

theorem outward_leave (code : Int64) :
    Outward host (·.primitive? = some exit) (Failure exit args) Answer (leave host code) := by
  refine .bind (.ask (.exit _) rfl) fun _ _ => ?_
  exact .pure .void

theorem outward_timeOfDay :
    Outward host (·.primitive? = some now) (Failure now args) Answer (timeOfDay host) := by
  refine .bind (.ask .unixTime rfl) fun seconds _ => ?_
  exact .pure (.int seconds)

/-- Looking for the words of a command asks the host for nothing. -/
theorem outward_commandWords {asks : Request → Prop} {fails : Signal → Prop} (strict : Bool) :
    ∀ (index : Nat) (args : List Value),
      (∀ v ∈ args, v.tag ≠ .text → fails (.wrongTypeArgument .text v)) →
        Outward host asks fails (fun _ => True) (commandWords strict index args)
  | _, [], _ => .pure trivial
  | index, v :: rest, h => by
    have ih : Outward host asks fails (fun _ => True) (commandWords strict (index + 1) rest) :=
      outward_commandWords strict (index + 1) rest fun w hw => h w (List.mem_cons_of_mem v hw)
    rw [commandWords]
    split
    · exact .bind ih fun _ _ => .pure trivial
    · next hv =>
      split
      · exact .fail (h v List.mem_cons_self (Value.text?_eq_none_iff.mp hv))
      · exact .bind (.warn _) fun _ _ => ih

theorem outward_runCommand (argv : ArgVector) :
    Outward host (·.primitive? = some sys) (Failure sys args) Answer (runCommand host argv) := by
  refine .bind (.ask _ rfl) fun answer _ => ?_
  match answer with
  | .error e => exact .bind (.warn _) fun _ _ => .fail (.host _ _ _)
  | .ok (.exited status) =>
    refine .pure ?_
    split
    · exact .void
    · exact .int _
  | .ok (.signaled signal) => exact .bind (.warn _) fun _ _ => .pure (.signaled _ _)

theorem outward_system (i : Interpreter σ) :
    Outward i.host (·.primitive? = some sys) (Failure sys args) Answer (system i args) := by
  have hwords : Outward i.host (·.primitive? = some sys) (Failure sys args) (fun _ => True)
      (commandWords i.settings.strictSysArgs 0 args) :=
    outward_commandWords i.host _ 0 args fun _ hv htag => .type hv htag
  refine .bind hwords fun words _ => ?_
  split
  · exact .fail .missingCommand
  · split
    · exact .fail .nulInArgument
    · exact outward_runCommand i.host args _

end Steps

/-- **A primitive makes requests of its kind, warns and fails, and nothing else.** -/
theorem outward_apply (i : Interpreter σ) (p : Primitive) (args : List Value) :
    Outward i.host (·.primitive? = some p) (Failure p args) Answer (p.apply i args) := by
  cases h : p.descriptor.arity.accepts args.length with
  | false =>
    rw [apply_of_not_accepts i h]
    exact .fail (.arity h)
  | true =>
    cases p with
    | cd =>
      obtain ⟨v, rfl⟩ := List.length_eq_one_iff.mp (Arity.accepts_exact_iff.mp h)
      by_cases hv : v.tag = .text
      · obtain ⟨path, rfl⟩ := Value.tag_eq_text_iff.mp hv
        exact outward_changeDir i.host _ path
      · rw [apply_cd_of_ne i hv]
        exact .fail (.type List.mem_cons_self hv)
    | pwd =>
      obtain rfl := List.length_eq_zero_iff.mp (Arity.accepts_exact_iff.mp h)
      exact outward_workingDir i.host _
    | exit =>
      obtain ⟨v, rfl⟩ := List.length_eq_one_iff.mp (Arity.accepts_exact_iff.mp h)
      by_cases hv : v.tag = .int
      · obtain ⟨code, rfl⟩ := Value.tag_eq_int_iff.mp hv
        exact outward_leave i.host _ code
      · rw [apply_exit_of_ne i hv]
        exact .fail (.type List.mem_cons_self hv)
    | now =>
      obtain rfl := List.length_eq_zero_iff.mp (Arity.accepts_exact_iff.mp h)
      exact outward_timeOfDay i.host _
    | sys => exact outward_system args i

end Primitive

end HostScript
