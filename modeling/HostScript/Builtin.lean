/-!
# Built-in callables

Every name that can head a call without being defined by the script: the special forms, which
receive their operands as they are written, and the primitives, which receive values and act on
the host. Two primitives have a second name.
-/

namespace HostScript

/-- How many operands a callable takes. -/
inductive Arity where
  | exact (n : Nat)
  | atLeast (n : Nat)
deriving DecidableEq, Repr

def Arity.accepts : Arity → Nat → Bool
  | .exact n, count => count == n
  | .atLeast n, count => n ≤ count

@[simp] theorem Arity.accepts_exact_iff {n count : Nat} :
    (exact n).accepts count = true ↔ count = n := beq_iff_eq

@[simp] theorem Arity.accepts_atLeast_iff {n count : Nat} :
    (atLeast n).accepts count = true ↔ n ≤ count := decide_eq_true_iff

/-- Whether a callable receives the values of its operands or the operands as written. -/
inductive Operands where
  | evaluated
  | unevaluated
deriving DecidableEq, Repr

/-- What a callable does besides yielding a value. -/
inductive Effect where
  | none
  | readsState
  | writesState
  | waits
  | terminates
deriving DecidableEq, Repr

/-- What is known of a callable before it is called. -/
structure Descriptor where
  name : String
  arity : Arity
  operands : Operands
  effect : Effect
deriving DecidableEq, Repr

def Descriptor.isSpecialForm (d : Descriptor) : Bool := d.operands == .unevaluated

/-- The operations on the host. -/
inductive Primitive where
  | cd | pwd | exit | now | sys
deriving DecidableEq, Repr

/-- The callables that evaluate their operands themselves, or not at all. -/
inductive SpecialForm where
  | quote | define | sequence | time
deriving DecidableEq, Repr

def Primitive.descriptor : Primitive → Descriptor
  | .cd => ⟨"cd", .exact 1, .evaluated, .writesState⟩
  | .pwd => ⟨"pwd", .exact 0, .evaluated, .readsState⟩
  | .exit => ⟨"exit", .exact 1, .evaluated, .terminates⟩
  | .now => ⟨"now", .exact 0, .evaluated, .readsState⟩
  | .sys => ⟨"sys", .atLeast 0, .evaluated, .waits⟩

def SpecialForm.descriptor : SpecialForm → Descriptor
  | .quote => ⟨"quote", .exact 1, .unevaluated, .none⟩
  | .define => ⟨"def", .exact 2, .unevaluated, .writesState⟩
  | .sequence => ⟨"do", .atLeast 0, .unevaluated, .none⟩
  | .time => ⟨"time", .exact 1, .unevaluated, .readsState⟩

/-- A callable that the script need not define. -/
inductive Builtin where
  | form (form : SpecialForm)
  | primitive (primitive : Primitive)
deriving DecidableEq, Repr

namespace Builtin

def descriptor : Builtin → Descriptor
  | form f => f.descriptor
  | primitive p => p.descriptor

/-- The name by which the callable is reported. -/
def name (b : Builtin) : String := b.descriptor.name

/-- The callable with the given name or second name. -/
def ofName? : String → Option Builtin
  | "quote" => some (form .quote)
  | "def" => some (form .define)
  | "do" => some (form .sequence)
  | "time" => some (form .time)
  | "cd" => some (primitive .cd)
  | "cd!" => some (primitive .cd)
  | "pwd" => some (primitive .pwd)
  | "exit" => some (primitive .exit)
  | "exit!" => some (primitive .exit)
  | "now" => some (primitive .now)
  | "sys" => some (primitive .sys)
  | _ => none

/-- A callable's own name is one of its names. -/
theorem ofName?_name (b : Builtin) : ofName? b.name = some b := by
  rcases b with (_ | _ | _ | _) | (_ | _ | _ | _ | _) <;> rfl

end Builtin

/-- The names that stand for themselves and cannot be defined. -/
def isConstantName (name : String) : Bool := name = "Nil" || name = "Void"

end HostScript
