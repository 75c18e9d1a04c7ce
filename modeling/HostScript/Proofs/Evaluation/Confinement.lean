import HostScript.Proofs.Evaluation.Calls
import HostScript.Proofs.Evaluation.Reachable

/-!
# What an expression can ask for

A primitive can be called only if the expression *offers* it (`Session.Offers`): one of its symbols,
other than in the operand of a quotation, is a name of the primitive or is defined as it. Evaluation
keeps to the primitives that are offered (`Session.Confined`): it makes requests for these only, and
defines names as these only. The reason is that no step makes a primitive out of anything else; in
particular a symbol that was quoted is never called as what it names.
-/

namespace HostScript

variable {σ : Type}

open Evaluation Interpreter

/-! ## Offers -/

/-- The part stands in the expression outside of the operands of quotations. -/
inductive Expr.ActiveIn (part : Expr) : Expr → Prop
  | self : ActiveIn part part
  | mark (operand : Expr) : ActiveIn part (.symbol "quote") → ActiveIn part (.quotation operand)
  | item {e : Expr} {items : List Expr} : (∀ operand, Expr.list items ≠ .quotation operand) →
    e ∈ items → ActiveIn part e → ActiveIn part (.list items)

theorem Expr.ActiveIn.trans {part whole e : Expr} (h : part.ActiveIn e) (h' : e.ActiveIn whole) :
    part.ActiveIn whole := by
  induction h' with
  | self => exact h
  | mark operand _ ih => exact .mark operand ih
  | item hne hmem _ ih => exact .item hne hmem ih

theorem Expr.activeIn_head (head : Expr) (operands : List Expr) :
    head.ActiveIn (.list (head :: operands)) := by
  by_cases h : ∃ operand, Expr.list (head :: operands) = .quotation operand
  · obtain ⟨operand, hlist⟩ := h
    have hhead : head = .symbol "quote" := (List.cons.inj (Expr.list.inj hlist)).1
    rw [hlist, hhead]
    exact .mark operand .self
  · exact .item (fun operand hlist => h ⟨operand, hlist⟩) List.mem_cons_self .self

/-- Only the operand of a quotation is not active. -/
theorem Expr.activeIn_operand {head e : Expr} {operands : List Expr}
    (hhead : head ≠ .symbol "quote") (he : e ∈ operands) :
    e.ActiveIn (.list (head :: operands)) := by
  refine .item (fun operand hlist => hhead ?_) (List.mem_cons_of_mem head he) .self
  exact (List.cons.inj (Expr.list.inj hlist)).1

/-- An active symbol of the expression is a name of the primitive, or is defined as it. -/
def Session.Offers (s : Session σ) (e : Expr) (p : Primitive) : Prop :=
  ∃ name, (Expr.symbol name).ActiveIn e ∧
    (Builtin.ofName? name = some (.primitive p) ∨
      s.globals.get? name = some (.primitive p.descriptor.name))

/-- A list that is headed by the symbol `time` stands in the expression outside of the operands of
quotations. -/
def Expr.Times (e : Expr) : Prop :=
  ∃ operands, (Expr.list (.symbol "time" :: operands)).ActiveIn e

/-! ## Confined sessions -/

/-- If the value is a primitive, it is one of the given ones, by its own name. -/
def Value.Among (offered : Primitive → Prop) (v : Value) : Prop :=
  ∀ name, v = .primitive name → ∃ p, offered p ∧ name = p.descriptor.name

/-- The definitions after further ones were made in turn. -/
def Globals.insertAll (g : Globals) (bindings : List (String × Value)) : Globals :=
  bindings.foldl (fun g b => g.insert b.1 b.2) g

/-- The session `t` comes from `s` by requests for the given primitives, for processor time if that
is allowed, and by definitions of names as the given primitives or as other values. -/
structure Session.Confined (offered : Primitive → Prop) (timed : Prop) (s t : Session σ) :
    Prop where
  requests : ∃ rs, t.requests = s.requests ++ rs ∧
    ∀ r ∈ rs, (∀ p, r.primitive? = some p → offered p) ∧ (r = .cpuTime → timed)
  globals : ∃ bs, t.globals = s.globals.insertAll bs ∧ ∀ b ∈ bs, b.2.Among offered

section

variable {offered : Primitive → Prop} {timed : Prop}

theorem Value.among_of_ne {v : Value} (h : ∀ name, v ≠ .primitive name) : v.Among offered :=
  fun name hv => absurd hv (h name)

theorem Value.among_ofExpr (e : Expr) : (Value.ofExpr e).Among offered :=
  among_of_ne (ofExpr_ne_primitive e)

theorem Value.among_primitive {p : Primitive} (h : offered p) :
    (Value.primitive p.descriptor.name).Among offered :=
  fun _ hname => ⟨p, h, (Value.primitive.inj hname).symm⟩

theorem Primitive.Answer.among {v : Value} (h : Answer v) : v.Among offered := by
  cases h <;> exact Value.among_of_ne (by simp)

/-- What is called by such a value is one of the given primitives. -/
theorem Value.Among.callee {name : String} {b : Builtin} (h : (Value.primitive name).Among offered)
    (hb : Builtin.ofName? name = some b) : ∃ p, offered p ∧ b = .primitive p := by
  obtain ⟨p, hp, rfl⟩ := h name rfl
  have hname : Builtin.ofName? p.descriptor.name = some (.primitive p) :=
    Builtin.ofName?_name (.primitive p)
  rw [hname] at hb
  exact ⟨p, hp, (Option.some.inj hb).symm⟩

namespace Session.Confined

variable {s t u : Session σ}

theorem of_requests (hglobals : t.globals = s.globals) {rs : List Request}
    (hrequests : t.requests = s.requests ++ rs)
    (h : ∀ r ∈ rs, (∀ p, r.primitive? = some p → offered p) ∧ (r = .cpuTime → timed)) :
    s.Confined offered timed t :=
  ⟨⟨rs, hrequests, h⟩, ⟨[], hglobals, by simp⟩⟩

theorem refl (s : Session σ) : s.Confined offered timed s :=
  of_requests rfl (List.append_nil _).symm (by simp)

theorem trans (h : s.Confined offered timed t) (h' : t.Confined offered timed u) :
    s.Confined offered timed u := by
  obtain ⟨⟨rs, hrs, hr⟩, ⟨bs, hbs, hb⟩⟩ := h
  obtain ⟨⟨rs', hrs', hr'⟩, ⟨bs', hbs', hb'⟩⟩ := h'
  refine ⟨⟨rs ++ rs', ?_, fun r hmem => ?_⟩, ⟨bs ++ bs', ?_, fun b hmem => ?_⟩⟩
  · rw [hrs', hrs, List.append_assoc]
  · rcases List.mem_append.mp hmem with hmem | hmem
    · exact hr r hmem
    · exact hr' r hmem
  · rw [hbs', hbs, Globals.insertAll, Globals.insertAll, Globals.insertAll, List.foldl_append]
  · rcases List.mem_append.mp hmem with hmem | hmem
    · exact hb b hmem
    · exact hb' b hmem

theorem ask {request : Request} (h : ∀ p, request.primitive? = some p → offered p)
    (htimed : request = .cpuTime → timed) (s : Session σ) (state : σ) :
    s.Confined offered timed { s with host := state, requests := s.requests ++ [request] } := by
  refine of_requests rfl rfl fun r hr => ?_
  obtain rfl := List.mem_singleton.mp hr
  exact ⟨h, htimed⟩

theorem define {v : Value} (hv : v.Among offered) (s : Session σ) (name : String) :
    s.Confined offered timed { s with globals := s.globals.insert name v } := by
  refine ⟨⟨[], (List.append_nil _).symm, by simp⟩, ⟨[(name, v)], rfl, fun b hb => ?_⟩⟩
  obtain rfl := List.mem_singleton.mp hb
  exact hv

end Session.Confined

/-- Some names are defined as the given primitives or as other values only. -/
def Session.Defines (offered : Primitive → Prop) (names : String → Prop) (s : Session σ) : Prop :=
  ∀ name v, names name → s.globals.get? name = some v → v.Among offered

theorem Session.Defines.insert {names : String → Prop} {s : Session σ}
    (hs : s.Defines offered names) {v : Value} (hv : v.Among offered) (x : String) :
    ({ s with globals := s.globals.insert x v } : Session σ).Defines offered names := by
  intro name w hname hw
  exact Globals.forall_insert (p := fun name w => names name → w.Among offered)
    (fun name w hw hname => hs name w hname hw) (fun _ => hv) name w hw hname

/-- The contract of the steps that keep to the given primitives. -/
def confinementContract (offered : Primitive → Prop) (timed : Prop) (names : String → Prop) :
    Contract σ where
  Inv := Session.Defines offered names
  Changes := Session.Confined offered timed
  Fails _ _ := True
  refl := .refl
  trans := .trans

theorem confinement_ask {names : String → Prop} (host : Host σ) {request : Request}
    (h : ∀ p, request.primitive? = some p → offered p) (htimed : request = .cpuTime → timed) :
    (confinementContract offered timed names).Holds (fun _ => True) (ask host request) :=
  Contract.holds_ask fun s state hs => ⟨hs, .ask h htimed s state⟩

end

/-! ## Confined runs -/

/-- Runs of parts of an expression that keep to the given primitives, to which belong those that the
expression names. -/
def confinement (i : Interpreter σ) (whole : Expr) {offered : Primitive → Prop}
    (hoffered : ∀ name p, (Expr.symbol name).ActiveIn whole →
      Builtin.ofName? name = some (.primitive p) → offered p) : Comparison i i where
  Holds p x _ := (confinementContract offered whole.Times
    fun name => (Expr.symbol name).ActiveIn whole).Holds p x
  Good := Value.Among offered
  Calls head b := (∀ p, b = .primitive p → offered p) ∧ (b = .form .time → whole.Times) ∧
    (head = .symbol "quote" → b = .form .quote)
  Covers _ _ e := e.ActiveIn whole
  pure := Contract.holds_pure
  bind := Contract.Holds.bind
  head {_ _ head operands} h := (Expr.activeIn_head head operands).trans h
  operand h hb hquote _ he :=
    (Expr.activeIn_operand (fun hhead => hquote (hb.2.2 hhead)) he).trans h
  within _ hx := Contract.holds_within hx fun _ _ _ => trivial
  void := Value.among_of_ne (by simp)
  literal _ := Value.among_ofExpr _
  quoted _ _ := Value.among_ofExpr _
  variableValue {_ _ name} h := Contract.holds_variableValue (Value.among_of_ne (by simp))
    (Value.among_of_ne (by simp)) (fun p hp => Value.among_primitive (hoffered name p h hp))
    (fun _ v hs hv => hs name v h hv) (fun _ _ _ _ _ => trivial)
  namedCallee {_ _ head operands} h := by
    refine Contract.holds_namedCallee (fun h => ⟨by simp, fun _ => h⟩)
      (fun name b hhead hb => ⟨fun c hc => ?_, by simp⟩) (fun _ _ _ _ _ _ => trivial)
    obtain rfl := Option.some.inj hc
    subst hhead
    refine ⟨fun p hp => ?_, fun htime => ?_, fun hquote => ?_⟩
    · exact hoffered name p ((Expr.activeIn_head _ operands).trans h) (hp ▸ hb)
    · rw [htime] at hb
      obtain rfl := Builtin.eq_of_ofName?_form hb
      exact ⟨operands, h⟩
    · rw [Expr.symbol.inj hquote] at hb
      exact (Option.some.inj hb).symm
  -- A value calls a given primitive, and never a special form.
  calleeOfValue {head v} hhead hv := by
    refine Contract.holds_calleeOfValue (fun name b hname hb => ?_) (fun _ _ _ => trivial)
    rw [hname] at hv
    obtain ⟨p, hp, rfl⟩ := hv.callee hb
    refine ⟨fun q hq => Builtin.primitive.inj hq ▸ hp, by simp, fun hquote => ?_⟩
    have hnone := hhead "quote" hquote
    cases hnone
  checkArity _ _ := Contract.holds_checkArity fun _ _ _ => trivial
  definable _ _ := Contract.holds_definable (fun _ _ _ _ _ => trivial) (fun _ _ _ => trivial)
  define {_ _ _ _ name _} _ _ _ hv :=
    Contract.holds_define fun s hs => ⟨hs.insert hv name, .define hv s name⟩
  clock hb := confinement_ask i.host (by simp [Request.primitive?]) fun _ => hb.2.1 rfl
  sameScale := .refl i
  apply {_ p args} hb _ _ := by
    have hp : offered p := hb.1 p rfl
    have happly := Contract.holds_of_outward (Primitive.outward_apply i p args)
      (c := confinementContract offered whole.Times fun name => (Expr.symbol name).ActiveIn whole)
      (fun _ _ _ _ => trivial) (fun _ => Contract.holds_warn fun s hs => ⟨hs, ?_⟩)
      (fun request hrequest => confinement_ask i.host ?_ ?_)
    · exact happly.mono fun _ h => h.among
    · exact .of_requests rfl (List.append_nil _).symm (by simp)
    · intro q hq
      rw [hrequest] at hq
      exact Option.some.inj hq ▸ hp
    · rintro rfl
      cases hrequest

/-- **A symbol is never called.** -/
theorem Interpreter.eval_symbol_call {i : Interpreter σ} {d : Nat} {head : Expr}
    (hhead : head.IsComputed) {s t : Session σ} {name : String}
    (h : i.eval (d + 1) head s = (.ok (.symbol name), t)) (operands : List Expr) :
    i.eval d (.list (head :: operands)) s = (.error (.invalidFunction (.symbol name)), t) := by
  rw [eval_computed_call hhead h (by simp) (by simp)]
  rfl

/-- **Evaluation is confined to the primitives that are offered.** It makes only requests for
primitives that the expression offers in the session, and asks for processor time only if the
expression times something. What it defines and what it yields is no primitive, or one that is
offered. And a list whose head has a symbol as its value, instead of naming a callable, is refused
when the head was evaluated. -/
theorem Session.Reachable.eval_confined {s : Session σ} (hs : s.Reachable) (i : Interpreter σ)
    (d : Nat) (e : Expr) :
    let run := i.eval d e s
    (∃ rs, run.2.requests = s.requests ++ rs ∧
      ∀ r ∈ rs, (∀ p, r.primitive? = some p → s.Offers e p) ∧ (r = .cpuTime → e.Times)) ∧
    (∃ bs, run.2.globals = s.globals.insertAll bs ∧ ∀ b ∈ bs, b.2.Among (s.Offers e)) ∧
    (∀ v, run.1 = .ok v → v.Among (s.Offers e)) ∧
    ∀ head operands name t, e = .list (head :: operands) → head.IsComputed →
      i.eval (d + 1) head s = (.ok (.symbol name), t) →
        run = (.error (.invalidFunction (.symbol name)), t) := by
  intro run
  have hnamed : ∀ name p, (Expr.symbol name).ActiveIn e →
      Builtin.ofName? name = some (.primitive p) → s.Offers e p :=
    fun name p hname hp => ⟨name, hname, Or.inl hp⟩
  have hdefines : s.Defines (s.Offers e) fun name => (Expr.symbol name).ActiveIn e := by
    rintro name v hname hv other rfl
    obtain ⟨p, rfl⟩ := hs.genuine name _ hv other rfl
    exact ⟨p, ⟨name, hname, Or.inr hv⟩, rfl⟩
  obtain ⟨-, ⟨hrequests, hglobals⟩, hvalue, -⟩ :=
    @Comparison.eval σ i i (confinement i e hnamed) e d d .self s hdefines
  refine ⟨hrequests, hglobals, hvalue, ?_⟩
  rintro head operands name t rfl hhead h
  exact eval_symbol_call hhead h operands

/-- After `(def run sys)` the form `(do 'cd (run "make"))` runs a command and asks for nothing else,
although it contains a name of another primitive. -/
theorem Session.Reachable.eval_confined_run :
    let i : Interpreter ScriptedHost := { host := ScriptedHost.host }
    let start : Session ScriptedHost := { host := { currentDir := .error .missing, unixTime := 0 } }
    let s := (i.eval 0 (.list [.symbol "def", .symbol "run", .symbol "sys"]) start).2
    let e : Expr := .list [.symbol "do", .quotation (.symbol "cd"),
      .list [.symbol "run", .text "make"]]
    let run := i.eval 0 e s
    s.Reachable ∧ run.2.requests.map Request.primitive? = [some .sys] ∧ s.Offers e .sys := by
  intro i start s e run
  have hs : s.Reachable := .eval i 0 _ (.start rfl)
  obtain ⟨⟨rs, hrequests, hoffered⟩, -⟩ := hs.eval_confined i 0 e
  have hmap : run.2.requests.map Request.primitive? = [some .sys] := rfl
  have hsys : some .sys ∈ rs.map Request.primitive? := by
    have hrs : run.2.requests = rs := hrequests
    rw [← hrs, hmap]
    exact List.mem_cons_self
  obtain ⟨r, hr, hprimitive⟩ := List.mem_map.mp hsys
  exact ⟨hs, hmap, (hoffered r hr).1 .sys hprimitive⟩

end HostScript
