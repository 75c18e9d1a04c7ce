import HostScript.Proofs.Evaluation.Evolution

/-!
# Definitions and the names they are made for

Evaluation removes no definition (`Session.retains_eval`), in whatever session.

Sessions come about from one without definitions by evaluating expressions (`Session.Reachable`).
What a name is defined as in such a session is never a primitive by a name other than its own
(`Session.Genuine`), so no value stands for a special form. Hence only a list that is headed by the
symbol `def` makes a definition, and every other definition stays as it was
(`Session.Genuine.eval_frame`).
-/

namespace HostScript

variable {σ : Type}

open Evaluation Interpreter

/-- `x` is the name that some list `(def x ...)` in the expression is for. -/
inductive Expr.Defines (x : String) : Expr → Prop
  | here (rest : List Expr) : Defines x (.list (.symbol "def" :: .symbol x :: rest))
  | item {e : Expr} {items : List Expr} : e ∈ items → Defines x e → Defines x (.list items)

/-! ## Genuine values -/

/-- The value is no primitive, or one by its own name. -/
def Value.Genuine (v : Value) : Prop :=
  ∀ name, v = .primitive name → ∃ p : Primitive, name = p.descriptor.name

theorem Value.genuine_of_ne {v : Value} (h : ∀ name, v ≠ .primitive name) : v.Genuine :=
  fun name hv => absurd hv (h name)

theorem Value.genuine_void : Value.void.Genuine := genuine_of_ne (by simp)

theorem Value.genuine_nil : Value.nil.Genuine := genuine_of_ne (by simp)

theorem Value.genuine_primitive (p : Primitive) : (Value.primitive p.descriptor.name).Genuine :=
  fun _ h => ⟨p, (Value.primitive.inj h).symm⟩

theorem Value.ofExpr_ne_primitive (e : Expr) (name : String) : ofExpr e ≠ .primitive name := by
  rcases e with _ | _ | _ | _ | _ | _ <;> simp [ofExpr, ofExprs]

theorem Value.genuine_ofExpr (e : Expr) : (Value.ofExpr e).Genuine :=
  genuine_of_ne (ofExpr_ne_primitive e)

theorem Primitive.Answer.genuine {v : Value} (h : Answer v) : v.Genuine := by
  cases h <;> exact Value.genuine_of_ne (by simp)

/-- What a genuine value calls is a primitive. -/
theorem Value.Genuine.eq_primitive {name : String} {b : Builtin}
    (h : (Value.primitive name).Genuine) (hb : Builtin.ofName? name = some b) :
    ∃ p, b = .primitive p := by
  obtain ⟨p, rfl⟩ := h name rfl
  have hname : Builtin.ofName? p.descriptor.name = some (.primitive p) :=
    Builtin.ofName?_name (.primitive p)
  rw [hname] at hb
  exact ⟨p, (Option.some.inj hb).symm⟩

/-- A special form has one name only. -/
theorem Builtin.eq_of_ofName?_form {name : String} {f : SpecialForm}
    (h : ofName? name = some (.form f)) : name = f.descriptor.name := by
  unfold ofName? at h
  split at h <;> cases h <;> rfl

/-- No name is defined as a primitive by another name. -/
def Session.Genuine (s : Session σ) : Prop :=
  ∀ name v, s.globals.get? name = some v → v.Genuine

theorem Session.Genuine.of_globals_eq {s t : Session σ} (hs : s.Genuine)
    (h : t.globals = s.globals) : t.Genuine := by
  intro name v hv
  rw [h] at hv
  exact hs name v hv

theorem Session.Genuine.insert {s : Session σ} (hs : s.Genuine) {v : Value} (hv : v.Genuine)
    (x : String) : ({ s with globals := s.globals.insert x v } : Session σ).Genuine :=
  Globals.forall_insert hs hv

/-! ## No definition is removed -/

/-- What `s` defines, `t` defines too. -/
def Session.Retains (s t : Session σ) : Prop :=
  ∀ name, s.globals.contains name = true → t.globals.contains name = true

theorem Session.Retains.of_eq {s t : Session σ} (h : t.globals = s.globals) : s.Retains t :=
  fun name hname => by rw [h, hname]

theorem Session.Retains.insert (s : Session σ) (x : String) (v : Value) :
    s.Retains { s with globals := s.globals.insert x v } := by
  intro name hname
  by_cases heq : name = x
  · simp [heq, Globals.contains]
  · simpa [Globals.contains, Globals.get?_insert_of_ne _ v heq] using hname

/-- What becomes of a session retains its definitions. -/
def Session.retention (host : Host σ) : Evolution host where
  Changes := Session.Retains
  refl _ := .of_eq rfl
  trans h h' := fun name hname => h' name (h name hname)
  define s x v := .insert s x v
  warn _ _ := .of_eq rfl
  ask _ _ := .of_eq rfl

/-- **Evaluation removes no definition.** -/
theorem Session.retains_eval (i : Interpreter σ) (d : Nat) (e : Expr) (s : Session σ) :
    s.Retains (i.eval d e s).2 :=
  (retention i.host).eval d e s

/-! ## The frame of evaluation -/

/-- All definitions of `s`, those for some names apart, are as they were. -/
def Session.Keeps (names : String → Prop) (s t : Session σ) : Prop :=
  ∀ name, ¬ names name → t.globals.get? name = s.globals.get? name

theorem Session.Keeps.of_eq {names : String → Prop} {s t : Session σ} (h : t.globals = s.globals) :
    s.Keeps names t :=
  fun name _ => by rw [h]

theorem Session.Keeps.insert {names : String → Prop} (s : Session σ) {x : String} (hx : names x)
    (v : Value) : s.Keeps names { s with globals := s.globals.insert x v } := by
  intro name hname
  have hne : name ≠ x := fun heq => hname (heq ▸ hx)
  exact Globals.get?_insert_of_ne _ v hne

/-- The contract of the steps that define some names only. -/
def frameContract (names : String → Prop) : Contract σ where
  Inv := Session.Genuine
  Changes := Session.Keeps names
  Fails _ _ := True
  refl _ := .of_eq rfl
  trans h h' := fun name hname => (h' name hname).trans (h name hname)

theorem frame_isAboutGlobals (names : String → Prop) :
    (frameContract (σ := σ) names).IsAboutGlobals := by
  intro s t hglobals hs
  exact ⟨hs.of_globals_eq hglobals, .of_eq hglobals⟩

/-- Runs that define some names only. -/
def frame (i : Interpreter σ) (names : String → Prop) : Comparison i i where
  Holds p x _ := (frameContract names).Holds p x
  Good := Value.Genuine
  Calls head b := b = .form .define → head = .symbol "def"
  Covers _ _ e := ∀ x, e.Defines x → names x
  pure := Contract.holds_pure
  bind := Contract.Holds.bind
  head h x hx := h x (.item List.mem_cons_self hx)
  operand h _ _ e he x hx := h x (.item (List.mem_cons_of_mem _ he) hx)
  within _ hx := Contract.holds_within hx fun _ _ _ => trivial
  void := Value.genuine_void
  literal _ := Value.genuine_ofExpr _
  quoted _ _ := Value.genuine_ofExpr _
  variableValue _ := Contract.holds_variableValue Value.genuine_nil Value.genuine_void
    (fun p _ => Value.genuine_primitive p) (fun _ v hs hv => hs _ v hv) (fun _ _ _ _ _ => trivial)
  namedCallee {_ _ head _} _ := by
    refine Contract.holds_namedCallee (fun h => ⟨by simp, fun _ => h⟩)
      (fun name b hhead hb => ⟨fun c hc hdef => ?_, by simp⟩) (fun _ _ _ _ _ _ => trivial)
    obtain rfl := Option.some.inj hc
    rw [hdef] at hb
    obtain rfl := Builtin.eq_of_ofName?_form hb
    exact hhead
  -- A genuine value calls a primitive, and never what defines.
  calleeOfValue {head v} _ hv := by
    refine Contract.holds_calleeOfValue (fun name b hname hb hdef => ?_) (fun _ _ _ => trivial)
    rw [hname] at hv
    obtain ⟨p, hp⟩ := hv.eq_primitive hb
    rw [hp] at hdef
    cases hdef
  checkArity _ _ := Contract.holds_checkArity fun _ _ _ => trivial
  definable _ _ := Contract.holds_definable (fun _ _ _ _ _ => trivial) (fun _ _ _ => trivial)
  define {_ _ head e x v} h hdef _ hv := Contract.holds_define fun s hs => by
    obtain rfl := hdef rfl
    exact ⟨hs.insert hv x, .insert s (h x (.here [e])) v⟩
  clock _ := (frame_isAboutGlobals names).ask i.host .cpuTime
  sameScale := .refl i
  apply {_ p args} _ _ _ :=
    ((frame_isAboutGlobals names).outward (Primitive.outward_apply i p args)
      fun _ _ _ _ => trivial).mono fun _ h => h.genuine

theorem holds_frame_eval (i : Interpreter σ) (d : Nat) {e : Expr} {names : String → Prop}
    (h : ∀ x, e.Defines x → names x) : (frameContract names).Holds Value.Genuine (i.eval d e) :=
  @Comparison.eval σ i i (frame i names) e d d h

/-- **In a genuine session a definition is made only where a list `(def x ...)` says so.** -/
theorem Session.Genuine.eval_frame {s : Session σ} (h : s.Genuine) (i : Interpreter σ) (d : Nat)
    (e : Expr) : s.Keeps e.Defines (i.eval d e s).2 :=
  (holds_frame_eval i d (fun _ hx => hx) s h).2.1

/-! ## Sessions that come about -/

/-- The sessions that come about: at first nothing is defined, and then expressions are evaluated,
at any depth. What has been asked of the host, what the host has become, and which warnings were
taken does not matter. -/
inductive Session.Reachable : Session σ → Prop
  | start {s : Session σ} : s.globals = {} → Reachable s
  | eval {s : Session σ} (i : Interpreter σ) (d : Nat) (e : Expr) :
    Reachable s → Reachable (i.eval d e s).2
  | outside {s t : Session σ} : t.globals = s.globals → Reachable s → Reachable t

/-- **Sessions that come about are genuine.** -/
theorem Session.Reachable.genuine {s : Session σ} (h : s.Reachable) : s.Genuine := by
  induction h with
  | start h =>
    intro name v hv
    rw [h] at hv
    simp at hv
  | eval i d e _ ih =>
    exact (holds_frame_eval i d (fun x (hx : e.Defines x) => hx) _ ih).1
  | outside h _ ih => exact ih.of_globals_eq h

end HostScript
