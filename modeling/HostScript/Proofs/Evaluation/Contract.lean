import HostScript.Proofs.Evaluation.Comparison
import HostScript.Proofs.Evaluation.Primitives

/-!
# Contracts of steps

A `Contract` says what steps rely on and keep: an invariant of sessions, how a step may change a
session, and which failures it may report in which session. That a step is within a contract
(`Contract.Holds`) carries over to steps that follow each other, so it is enough to see to the
single ones. For each step of evaluation there is one lemma that lists all that it can do.
-/

namespace HostScript

variable {σ α β : Type}

theorem Evaluation.bind_ok {x : Evaluation σ α} {s t : Session σ} {a : α} (h : x s = (.ok a, t))
    (f : α → Evaluation σ β) : (x >>= f) s = f a t := by
  rw [bind_apply, h]

theorem Evaluation.bind_error {x : Evaluation σ α} {s t : Session σ} {e : Signal}
    (h : x s = (.error e, t)) (f : α → Evaluation σ β) : (x >>= f) s = (.error e, t) := by
  rw [bind_apply, h]

theorem Evaluation.globals_bind_apply (f : Globals → Evaluation σ α) (s : Session σ) :
    (globals >>= f) s = f s.globals s := rfl

theorem Interpreter.within_of_lt {i : Interpreter σ} {d : Nat}
    (h : d < i.settings.maxDepth.toNat) (x : Evaluation σ α) : i.within d x = x := if_pos h

theorem Interpreter.within_of_not_lt {i : Interpreter σ} {d : Nat}
    (h : ¬ d < i.settings.maxDepth.toNat) (x : Evaluation σ α) :
    i.within d x = Evaluation.fail (.excessiveNesting i.settings.maxDepth) := if_neg h

/-- What is so of all definitions is so after one more, if it is so of that one. -/
theorem Globals.forall_insert {g : Globals} {p : String → Value → Prop}
    (h : ∀ name v, g.get? name = some v → p name v) {x : String} {v : Value} (hx : p x v) :
    ∀ name w, (g.insert x v).get? name = some w → p name w := by
  intro name w hw
  by_cases hname : name = x
  · subst hname
    rw [get?_insert_self] at hw
    exact Option.some.inj hw ▸ hx
  · rw [get?_insert_of_ne _ _ hname] at hw
    exact h name w hw

/-- What steps of a session rely on and keep. -/
structure Contract (σ : Type) where
  /-- What holds of a session before and after a step. -/
  Inv : Session σ → Prop
  /-- How a step may change a session. -/
  Changes : Session σ → Session σ → Prop
  /-- Which failures are reported in a session. -/
  Fails : Signal → Session σ → Prop
  refl (s : Session σ) : Changes s s
  trans {s t u : Session σ} : Changes s t → Changes t u → Changes s u

namespace Contract

open Evaluation Interpreter

variable (c : Contract σ)

/-- In a session the step is within the contract, and its value is as the predicate says. -/
def HoldsAt (s : Session σ) (p : α → Prop) (x : Evaluation σ α) : Prop :=
  c.Inv (x s).2 ∧ c.Changes s (x s).2 ∧ (∀ a, (x s).1 = .ok a → p a) ∧
    ∀ e, (x s).1 = .error e → c.Fails e (x s).2

/-- So it is in every session in which the invariant holds. -/
def Holds (p : α → Prop) (x : Evaluation σ α) : Prop := ∀ s, c.Inv s → c.HoldsAt s p x

variable {c}

theorem holdsAt_of_ok {p : α → Prop} {x : Evaluation σ α} {s t : Session σ} {a : α}
    (hx : x s = (.ok a, t)) (hp : p a) (ht : c.Inv t) (hc : c.Changes s t) : c.HoldsAt s p x := by
  unfold HoldsAt
  rw [hx]
  exact ⟨ht, hc, fun b hb => Except.ok.inj hb ▸ hp, by simp⟩

theorem holdsAt_pure {p : α → Prop} {a : α} {s : Session σ} (hs : c.Inv s) (h : p a) :
    c.HoldsAt s p (pure a) := holdsAt_of_ok rfl h hs (c.refl s)

theorem holdsAt_fail {p : α → Prop} {e : Signal} {s : Session σ} (hs : c.Inv s)
    (h : c.Fails e s) : c.HoldsAt s p (fail e) := by
  unfold HoldsAt
  rw [show (fail e : Evaluation σ α) s = (.error e, s) from rfl]
  exact ⟨hs, c.refl s, by simp, fun d hd => Except.error.inj hd ▸ h⟩

theorem holds_pure {p : α → Prop} {a : α} (h : p a) : c.Holds p (pure a : Evaluation σ α) :=
  fun _ hs => holdsAt_pure hs h

theorem holds_fail {p : α → Prop} {e : Signal} (h : ∀ s, c.Inv s → c.Fails e s) :
    c.Holds p (fail e : Evaluation σ α) := fun s hs => holdsAt_fail hs (h s hs)

theorem Holds.mono {p q : α → Prop} {x : Evaluation σ α} (h : c.Holds p x) (hpq : ∀ a, p a → q a) :
    c.Holds q x := by
  intro s hs
  obtain ⟨hi, hc, hp, he⟩ := h s hs
  exact ⟨hi, hc, fun a ha => hpq a (hp a ha), he⟩

/-- **What two steps keep is kept by the one followed by the other.** -/
theorem Holds.bind {p : α → Prop} {q : β → Prop} {x : Evaluation σ α} {f : α → Evaluation σ β}
    (hx : c.Holds p x) (hf : ∀ a, p a → c.Holds q (f a)) : c.Holds q (x >>= f) := by
  intro s hs
  obtain ⟨hi, hc, hp, he⟩ := hx s hs
  unfold HoldsAt
  rcases h : x s with ⟨e | a, t⟩
  -- A failure of the first step is the failure of both.
  · rw [h] at hi hc he
    rw [bind_error h]
    exact ⟨hi, hc, by simp, fun d hd => he d (by rw [Except.error.inj hd])⟩
  · rw [h] at hi hc hp
    rw [bind_ok h]
    obtain ⟨hi', hc', hq, he'⟩ := hf a (hp a rfl) t hi
    exact ⟨hi', c.trans hc hc', hq, he'⟩

/-! ## What single steps do -/

/-- An evaluation goes on, or too many are in progress. -/
theorem holds_within {i : Interpreter σ} {d : Nat} {p : α → Prop} {x : Evaluation σ α}
    (hx : c.Holds p x)
    (hfail : ∀ s, c.Inv s → i.settings.maxDepth.toNat ≤ d →
      c.Fails (.excessiveNesting i.settings.maxDepth) s) :
    c.Holds p (i.within d x) := by
  unfold within
  split
  · exact hx
  · next hd => exact holds_fail fun s hs => hfail s hs (Nat.le_of_not_lt hd)

/-- A step that goes on with the definitions has them as they are in its session. -/
theorem holds_globals_bind {p : α → Prop} {f : Globals → Evaluation σ α}
    (h : ∀ s, c.Inv s → c.HoldsAt s p (f s.globals)) : c.Holds p (globals >>= f) := h

theorem holds_define {name : String} {v : Value}
    (h : ∀ s, c.Inv s → c.Inv { s with globals := s.globals.insert name v } ∧
      c.Changes s { s with globals := s.globals.insert name v }) :
    c.Holds (fun _ => True) (define name v) := fun s hs =>
  holdsAt_of_ok rfl trivial (h s hs).1 (h s hs).2

theorem holds_warn {message : String}
    (h : ∀ s, c.Inv s → c.Inv { s with warnings := s.warnings ++ [message] } ∧
      c.Changes s { s with warnings := s.warnings ++ [message] }) :
    c.Holds (fun _ => True) (warn message) := fun s hs =>
  holdsAt_of_ok rfl trivial (h s hs).1 (h s hs).2

theorem holds_ask {host : Host σ} {request : Request}
    (h : ∀ s state, c.Inv s →
      c.Inv { s with host := state, requests := s.requests ++ [request] } ∧
        c.Changes s { s with host := state, requests := s.requests ++ [request] }) :
    c.Holds (fun _ => True) (ask host request) := fun s hs =>
  holdsAt_of_ok rfl trivial (h s _ hs).1 (h s _ hs).2

/-- A name has the value of a constant, is a primitive, or has the value it is defined as. -/
theorem holds_variableValue {name : String} {p : Value → Prop} (hnil : p .nil) (hvoid : p .void)
    (hprimitive : ∀ q : Primitive, Builtin.ofName? name = some (.primitive q) →
      p (.primitive q.descriptor.name))
    (hglobal : ∀ s v, c.Inv s → s.globals.get? name = some v → p v)
    (hfail : ∀ s, c.Inv s → isConstantName name = false →
      (∀ q, Builtin.ofName? name ≠ some (.primitive q)) → s.globals.get? name = none →
        c.Fails (.voidVariable name) s) :
    c.Holds p (variableValue name) := by
  unfold variableValue
  split
  · exact holds_pure hnil
  next hn =>
  split
  · exact holds_pure hvoid
  next hv =>
  split
  · next q hq => exact holds_pure (hprimitive q hq)
  · next hq =>
    refine holds_globals_bind fun s hs => ?_
    split
    · next v hget => exact holdsAt_pure hs (hglobal s v hs hget)
    · next hget => exact holdsAt_fail hs (hfail s hs (by simp [isConstantName, hn, hv]) hq hget)

/-- A head names a callable, or it is evaluated. A symbol that is neither a callable nor defined is
refused. -/
theorem holds_namedCallee {head : Expr} {p : Option Builtin → Prop}
    (hnone : head.IsComputed → p none)
    (hnamed : ∀ name b, head = .symbol name → Builtin.ofName? name = some b → p (some b))
    (hfail : ∀ s name, c.Inv s → head = .symbol name → Builtin.ofName? name = none →
      s.globals.get? name = none → c.Fails (.voidFunction name) s) :
    c.Holds p (namedCallee head) := by
  unfold namedCallee
  split
  · next name =>
    split
    · next b hb => exact holds_pure (hnamed name b rfl hb)
    · next hb =>
      refine holds_globals_bind fun s hs => ?_
      split
      · exact holdsAt_pure hs (hnone fun other hother => Expr.symbol.inj hother ▸ hb)
      · next hget =>
        exact holdsAt_fail hs (hfail s name hs rfl hb (by simpa [Globals.contains] using hget))
  · next hhead => exact holds_pure (hnone fun name hname => absurd hname (hhead name))

/-- A value is called through the name that a primitive carries. -/
theorem holds_calleeOfValue {v : Value} {p : Builtin → Prop}
    (h : ∀ name b, v = .primitive name → Builtin.ofName? name = some b → p b)
    (hfail : ∀ s, c.Inv s → (∀ name b, v = .primitive name → Builtin.ofName? name ≠ some b) →
      c.Fails (.invalidFunction v) s) :
    c.Holds p (calleeOfValue v) := by
  unfold calleeOfValue
  split
  · next name =>
    split
    · next b hb => exact holds_pure (h name b rfl hb)
    · next hb =>
      refine holds_fail fun s hs => hfail s hs fun other b hother => ?_
      rw [← Value.primitive.inj hother, hb]
      simp
  · next hv => exact holds_fail fun s hs => hfail s hs fun name b hname => absurd hname (hv name)

theorem holds_checkArity {b : Builtin} {count : Nat}
    (hfail : ∀ s, c.Inv s → b.descriptor.arity.accepts count = false →
      c.Fails (.wrongNumberOfArguments b.name count) s) :
    c.Holds (fun _ => b.descriptor.arity.accepts count = true) (checkArity b count) := by
  unfold checkArity
  split
  · next h => exact holds_pure h
  · next h => exact holds_fail fun s hs => hfail s hs (by simpa using h)

/-- Only a symbol that is no constant and names no callable can be defined. -/
theorem holds_definable {target : Expr}
    (hconstant : ∀ s name, c.Inv s → target = .symbol name → ¬ IsDefinable name →
      c.Fails (.settingConstant name) s)
    (htype : ∀ s, c.Inv s → (∀ name, target ≠ .symbol name) →
      c.Fails (.wrongTypeArgument .symbol (.ofExpr target)) s) :
    c.Holds (fun name => target = .symbol name ∧ IsDefinable name) (definable target) := by
  unfold definable
  split
  · next name =>
    have hiff : (isConstantName name || (Builtin.ofName? name).isSome) = true ↔
        ¬ IsDefinable name := by
      simp [IsDefinable, Option.isSome_iff_ne_none, Classical.or_iff_not_imp_left]
    split
    · next h => exact holds_fail fun s hs => hconstant s name hs rfl (hiff.mp h)
    · next h => exact holds_pure ⟨rfl, Classical.not_not.mp fun hn => h (hiff.mpr hn)⟩
  · next htarget => exact holds_fail fun s hs => htype s hs htarget

/-- A step that only turns to the host is within a contract that admits requests, warnings and
failures. -/
theorem holds_of_outward {host : Host σ} {asks : Request → Prop} {fails : Signal → Prop}
    {p : α → Prop} {x : Evaluation σ α} (h : Outward host asks fails p x)
    (hfail : ∀ s e, c.Inv s → fails e → c.Fails e s)
    (hwarn : ∀ message, c.Holds (fun _ => True) (warn message))
    (hask : ∀ request, asks request → c.Holds (fun _ => True) (ask host request)) :
    c.Holds p x := by
  induction h with
  | pure h => exact holds_pure h
  | fail h => exact holds_fail fun s hs => hfail s _ hs h
  | warn message => exact hwarn message
  | ask request h => exact hask request h
  | bind _ _ hx hf => exact hx.bind hf

/-! ## Contracts about definitions -/

/-- Whatever leaves the definitions as they are is within the contract, failures apart. -/
def IsAboutGlobals (c : Contract σ) : Prop :=
  ∀ s t : Session σ, t.globals = s.globals → c.Inv s → c.Inv t ∧ c.Changes s t

theorem IsAboutGlobals.ask (h : c.IsAboutGlobals) (host : Host σ) (request : Request) :
    c.Holds (fun _ => True) (ask host request) :=
  holds_ask fun s _ hs => h s _ rfl hs

/-- Of a step that only turns to the host such a contract can only tell the failures. -/
theorem IsAboutGlobals.outward (h : c.IsAboutGlobals) {host : Host σ} {asks : Request → Prop}
    {fails : Signal → Prop} {p : α → Prop} {x : Evaluation σ α} (hx : Outward host asks fails p x)
    (hfail : ∀ s e, c.Inv s → fails e → c.Fails e s) : c.Holds p x := by
  refine holds_of_outward hx hfail (fun message => ?_) (fun request _ => h.ask host request)
  exact holds_warn fun s hs => h s _ rfl hs

end Contract

/-! ## Forms one after the other -/

namespace Session

theorem length_evalForms (i : Interpreter σ) (forms : List Expr) (s : Session σ) :
    (s.evalForms i forms).1.length = forms.length := by
  induction forms generalizing s with
  | nil => rfl
  | cons form rest ih =>
    rw [evalForms, List.length_cons, List.length_cons, ih]

/-- **What every form keeps, forms that are evaluated one after the other keep.** -/
theorem evalForms_keeps {i : Interpreter σ} (inv : Session σ → Prop)
    (good : Except Signal Value → Prop) {forms : List Expr}
    (hform : ∀ form ∈ forms, ∀ s, inv s →
      inv (s.evalForm i form).2 ∧ good (s.evalForm i form).1) {s : Session σ} (hs : inv s) :
    inv (s.evalForms i forms).2 ∧ ∀ result ∈ (s.evalForms i forms).1, good result := by
  induction forms generalizing s with
  | nil => exact ⟨hs, fun _ hmem => absurd hmem List.not_mem_nil⟩
  | cons form rest ih =>
    obtain ⟨hfirst, hrest⟩ := List.forall_mem_cons.mp hform
    obtain ⟨hsession, hresult⟩ := hfirst s hs
    obtain ⟨hrun, hresults⟩ := ih hrest hsession
    exact ⟨hrun, List.forall_mem_cons.mpr ⟨hresult, hresults⟩⟩

end Session

end HostScript
