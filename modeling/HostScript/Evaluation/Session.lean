import HostScript.Host.Basic
import HostScript.Signal

/-!
# Sessions

What lasts from one form to the next: the definitions made so far, the host's state, the warnings
that nobody has taken yet, and the requests that were made to the host.

An `Evaluation` is a step of a session that may fail. A failure keeps what was done before it.
-/

namespace HostScript

/-! ## Definitions -/

/-- The values that names are defined as. No name is listed twice. -/
structure Globals where
  entries : List (String × Value) := []

namespace Globals

/-- The value of a name. -/
def get? (g : Globals) (name : String) : Option Value := g.entries.lookup name

def contains (g : Globals) (name : String) : Bool := (g.get? name).isSome

/-- Defines a name, anew if it was defined before. -/
def insert (g : Globals) (name : String) (value : Value) : Globals :=
  ⟨(name, value) :: g.entries.filter (·.1 != name)⟩

@[simp] theorem get?_empty (name : String) : ({} : Globals).get? name = none := rfl

theorem lookup_filter_ne {name other : String} (h : other ≠ name) (es : List (String × Value)) :
    (es.filter (·.1 != name)).lookup other = es.lookup other := by
  induction es with
  | nil => rfl
  | cons e es ih =>
    obtain ⟨key, value⟩ := e
    by_cases hk : key = name
    · have ho : (other == name) = false := by simp [h]
      simp [hk, List.lookup_cons, ho, ih]
    · simp [hk, List.lookup_cons, ih]

@[simp] theorem get?_insert_self (g : Globals) (name : String) (value : Value) :
    (g.insert name value).get? name = some value := by
  simp [insert, get?]

theorem get?_insert_of_ne (g : Globals) {name other : String} (value : Value) (h : other ≠ name) :
    (g.insert name value).get? other = g.get? other := by
  have ho : (other == name) = false := by simp [h]
  simp [insert, get?, List.lookup_cons, ho, lookup_filter_ne h]

end Globals

/-! ## Sessions -/

/-- What lasts from one form to the next. Warnings and requests are in the order in which they were
made. -/
structure Session (σ : Type) where
  host : σ
  globals : Globals := {}
  warnings : List String := []
  requests : List Request := []

/-- A step of a session that yields a value or fails. -/
def Evaluation (σ α : Type) : Type := Session σ → Except Signal α × Session σ

namespace Evaluation

variable {σ α β : Type}

/-- Yields a value and does nothing. -/
protected def pure (a : α) : Evaluation σ α := fun s => (.ok a, s)

/-- Goes on with the value of the first step, if there is one. -/
protected def bind (x : Evaluation σ α) (f : α → Evaluation σ β) : Evaluation σ β := fun s =>
  match x s with
  | (.ok a, s') => f a s'
  | (.error e, s') => (.error e, s')

instance : Monad (Evaluation σ) where
  pure := Evaluation.pure
  bind := Evaluation.bind

/-- Fails. -/
def fail (e : Signal) : Evaluation σ α := fun s => (.error e, s)

/-- Notes a warning. -/
def warn (message : String) : Evaluation σ Unit := fun s =>
  (.ok (), { s with warnings := s.warnings ++ [message] })

/-- The definitions made so far. -/
def globals : Evaluation σ Globals := fun s => (.ok s.globals, s)

/-- Defines a name. -/
def define (name : String) (value : Value) : Evaluation σ Unit := fun s =>
  (.ok (), { s with globals := s.globals.insert name value })

/-- Asks the host. -/
def ask (host : Host σ) (request : Request) : Evaluation σ request.Answer := fun s =>
  let (answer, state) := host.answer request s.host
  (.ok answer, { s with host := state, requests := s.requests ++ [request] })

theorem pure_apply (a : α) (s : Session σ) : (pure a : Evaluation σ α) s = (.ok a, s) := rfl

theorem bind_apply (x : Evaluation σ α) (f : α → Evaluation σ β) (s : Session σ) :
    (x >>= f) s =
      match x s with
      | (.ok a, s') => f a s'
      | (.error e, s') => (.error e, s') := rfl

instance : LawfulMonad (Evaluation σ) := LawfulMonad.mk' _
  (fun x => by
    funext s
    change Evaluation.bind x (Evaluation.pure) s = x s
    simp only [Evaluation.bind, Evaluation.pure]
    rcases x s with ⟨_ | _, _⟩ <;> rfl)
  (fun _ _ => rfl)
  (fun x f g => by
    funext s
    simp only [bind_apply]
    rcases x s with ⟨_ | _, _⟩ <;> rfl)

end Evaluation

end HostScript
