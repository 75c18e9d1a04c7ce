import HostScript.Proofs.Evaluation.Contract

/-!
# What every run does to a session

A session changes only where a name is defined, a warning is noted or the host is asked. What holds
between a session and the one after such a change, and is passed on from change to change, holds
between the sessions before and after a run, whatever is evaluated and however that ends
(`Evolution.eval`).
-/

namespace HostScript

variable {σ : Type}

open Evaluation Interpreter

/-- A relation between a session and what becomes of it, with a proof for every single change. -/
structure Evolution (host : Host σ) where
  Changes : Session σ → Session σ → Prop
  refl (s : Session σ) : Changes s s
  trans {s t u : Session σ} : Changes s t → Changes t u → Changes s u
  define (s : Session σ) (name : String) (v : Value) :
    Changes s { s with globals := s.globals.insert name v }
  warn (s : Session σ) (message : String) :
    Changes s { s with warnings := s.warnings ++ [message] }
  ask (s : Session σ) (request : Request) :
    Changes s { s with
      host := (host.answer request s.host).2
      requests := s.requests ++ [request] }

namespace Evolution

/-- The contract of the steps that change a session so. -/
def contract {host : Host σ} (v : Evolution host) : Contract σ where
  Inv _ := True
  Changes := v.Changes
  Fails _ _ := True
  refl := v.refl
  trans := v.trans

theorem holds_ask {host : Host σ} (v : Evolution host) (request : Request) :
    v.contract.Holds (fun _ => True) (Evaluation.ask host request) :=
  fun s _ => Contract.holdsAt_of_ok rfl trivial trivial (v.ask s request)

/-- Every step of a run is within the contract, whatever is called. -/
def comparison {i : Interpreter σ} (v : Evolution i.host) : Comparison i i where
  Holds p x _ := v.contract.Holds p x
  Good _ := True
  Calls _ _ := True
  Covers _ _ _ := True
  pure := Contract.holds_pure
  bind := Contract.Holds.bind
  head _ := trivial
  operand _ _ _ _ _ := trivial
  within _ hx := Contract.holds_within hx fun _ _ _ => trivial
  void := trivial
  literal _ := trivial
  quoted _ _ := trivial
  variableValue _ := Contract.holds_variableValue trivial trivial (fun _ _ => trivial)
    (fun _ _ _ _ => trivial) (fun _ _ _ _ _ => trivial)
  namedCallee _ := Contract.holds_namedCallee (fun h => ⟨fun _ _ => trivial, fun _ => h⟩)
    (fun _ _ _ _ => ⟨fun _ _ => trivial, by simp⟩) (fun _ _ _ _ _ _ => trivial)
  calleeOfValue _ _ := Contract.holds_calleeOfValue (fun _ _ _ _ => trivial) (fun _ _ _ => trivial)
  checkArity _ _ := Contract.holds_checkArity fun _ _ _ => trivial
  definable _ _ := Contract.holds_definable (fun _ _ _ _ _ => trivial) (fun _ _ _ => trivial)
  define _ _ _ _ := Contract.holds_define fun s _ => ⟨trivial, v.define s _ _⟩
  clock _ := v.holds_ask .cpuTime
  sameScale := .refl i
  apply {_ p args} _ _ _ :=
    (Contract.holds_of_outward (Primitive.outward_apply i p args) (fun _ _ _ _ => trivial)
      (fun message => Contract.holds_warn fun s _ => ⟨trivial, v.warn s message⟩)
      (fun request _ => v.holds_ask request)).mono fun _ _ => trivial

/-- **What every single change does, every run does.** -/
theorem eval {i : Interpreter σ} (v : Evolution i.host) (d : Nat) (e : Expr) (s : Session σ) :
    v.Changes s (i.eval d e s).2 :=
  (@Comparison.eval σ i i v.comparison e d d trivial s trivial).2.1

end Evolution

end HostScript
