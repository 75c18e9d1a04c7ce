import HostScript.Host.Scripted
import HostScript.Proofs.Evaluation.Reachable

/-!
# Locality

Of all definitions, evaluation sees only those of the names that stand in the expression: in two
sessions that agree on these names and on the host it does the same (`Local`). With what it leaves
as it was (`Session.retains_eval`, `Session.Genuine.eval_frame`) this is `eval_local`.
-/

namespace HostScript

variable {σ α β : Type}

open Evaluation Interpreter

/-- The symbol `name` stands in the expression. -/
inductive Expr.Mentions (name : String) : Expr → Prop
  | symbol : Mentions name (.symbol name)
  | item {e : Expr} {items : List Expr} : e ∈ items → Mentions name e → Mentions name (.list items)

/-! ## Sessions that agree -/

/-- The sessions have the same host, and define some names alike. -/
structure Session.Agree (names : String → Prop) (s t : Session σ) : Prop where
  host : s.host = t.host
  globals : ∀ name, names name → s.globals.get? name = t.globals.get? name

/-- The runs `r` of `s` and `r'` of `t` are the same: they have the same result, leave sessions that
agree, and add the same warnings and requests. -/
structure SameRun (names : String → Prop) (p : α → Prop) (s t : Session σ)
    (r r' : Except Signal α × Session σ) : Prop where
  value : ∀ a, r.1 = .ok a → p a
  result : r.1 = r'.1
  agree : r.2.Agree names r'.2
  warnings : ∃ ws, r.2.warnings = s.warnings ++ ws ∧ r'.2.warnings = t.warnings ++ ws
  requests : ∃ rs, r.2.requests = s.requests ++ rs ∧ r'.2.requests = t.requests ++ rs

theorem exists_append_nil {α : Type} (as bs : List α) :
    ∃ cs, as = as ++ cs ∧ bs = bs ++ cs :=
  ⟨[], (List.append_nil as).symm, (List.append_nil bs).symm⟩

/-- A step does the same in sessions that agree. -/
def Local (names : String → Prop) (p : α → Prop) (x x' : Evaluation σ α) : Prop :=
  ∀ s t, s.Agree names t → SameRun names p s t (x s) (x' t)

namespace Local

variable {names : String → Prop}

theorem pure {p : α → Prop} {a : α} (h : p a) :
    Local names p (pure a : Evaluation σ α) (pure a) := by
  intro s t hst
  exact ⟨fun _ hb => Except.ok.inj hb ▸ h, rfl, hst, exists_append_nil _ _, exists_append_nil _ _⟩

theorem fail {p : α → Prop} (e : Signal) :
    Local names p (fail e : Evaluation σ α) (fail e) := by
  intro s t hst
  exact ⟨by simp [Evaluation.fail], rfl, hst, exists_append_nil _ _, exists_append_nil _ _⟩

theorem bind {p : α → Prop} {q : β → Prop} {x x' : Evaluation σ α} {f f' : α → Evaluation σ β}
    (hx : Local names p x x') (hf : ∀ a, p a → Local names q (f a) (f' a)) :
    Local names q (x >>= f) (x' >>= f') := by
  intro s t hst
  have hrun := hx s t hst
  -- With the same result, both stop here or both go on.
  rcases h : x s with ⟨e | a, s₁⟩ <;> rcases h' : x' t with ⟨e' | a', t₁⟩ <;> rw [h, h'] at hrun
  · rw [bind_error h, bind_error h']
    obtain rfl := Except.error.inj hrun.result
    exact ⟨by simp, rfl, hrun.agree, hrun.warnings, hrun.requests⟩
  · cases hrun.result
  · cases hrun.result
  · rw [bind_ok h, bind_ok h']
    obtain rfl := Except.ok.inj hrun.result
    have hrest := hf a (hrun.value a rfl) s₁ t₁ hrun.agree
    obtain ⟨ws, hws, hws'⟩ := hrun.warnings
    obtain ⟨vs, hvs, hvs'⟩ := hrest.warnings
    obtain ⟨rs, hrs, hrs'⟩ := hrun.requests
    obtain ⟨qs, hqs, hqs'⟩ := hrest.requests
    refine ⟨hrest.value, hrest.result, hrest.agree, ⟨ws ++ vs, ?_, ?_⟩, ⟨rs ++ qs, ?_, ?_⟩⟩
    · rw [hvs, hws, List.append_assoc]
    · rw [hvs', hws', List.append_assoc]
    · rw [hqs, hrs, List.append_assoc]
    · rw [hqs', hrs', List.append_assoc]

theorem mono {p q : α → Prop} {x x' : Evaluation σ α} (h : Local names p x x')
    (hpq : ∀ a, p a → q a) : Local names q x x' := by
  intro s t hst
  have hrun := h s t hst
  exact ⟨fun a ha => hpq a (hrun.value a ha), hrun.result, hrun.agree, hrun.warnings,
    hrun.requests⟩

/-- A step that goes on with the definitions has to do the same with definitions that are alike. -/
theorem globals_bind {p : α → Prop} {f : Globals → Evaluation σ α}
    (h : ∀ g g' : Globals, (∀ name, names name → g.get? name = g'.get? name) →
      Local names p (f g) (f g')) : Local names p (globals >>= f) (globals >>= f) := by
  intro s t hst
  exact h s.globals t.globals hst.globals s t hst

theorem warn (message : String) :
    Local names (fun _ => True) (warn message : Evaluation σ Unit) (warn message) := by
  intro s t hst
  exact ⟨fun _ _ => trivial, rfl, ⟨hst.host, hst.globals⟩, ⟨[message], rfl, rfl⟩,
    exists_append_nil _ _⟩

/-- The same request is answered alike, and leaves the same host. -/
theorem ask (host : Host σ) (request : Request) :
    Local names (fun _ => True) (ask host request) (ask host request) := by
  rintro ⟨state, g, ws, rs⟩ ⟨_, g', ws', rs'⟩ ⟨rfl, hglobals⟩
  exact ⟨fun _ _ => trivial, rfl, ⟨rfl, hglobals⟩, exists_append_nil _ _, ⟨[request], rfl, rfl⟩⟩

theorem define (x : String) (v : Value) :
    Local names (fun _ => True) (define x v : Evaluation σ Unit) (define x v) := by
  intro s t hst
  refine ⟨fun _ _ => trivial, rfl, ⟨hst.host, fun name hname => ?_⟩, exists_append_nil _ _,
    exists_append_nil _ _⟩
  show (s.globals.insert x v).get? name = (t.globals.insert x v).get? name
  by_cases heq : name = x
  · rw [heq, Globals.get?_insert_self, Globals.get?_insert_self]
  · rw [Globals.get?_insert_of_ne _ _ heq, Globals.get?_insert_of_ne _ _ heq]
    exact hst.globals name hname

theorem outward {host : Host σ} {asks : Request → Prop} {fails : Signal → Prop} {p : α → Prop}
    {x : Evaluation σ α} (h : Outward host asks fails p x) : Local names p x x := by
  induction h with
  | pure h => exact .pure h
  | fail _ => exact .fail _
  | warn message => exact .warn message
  | ask request _ => exact .ask host request
  | bind _ _ hx hf => exact hx.bind hf

/-! ## The steps of evaluation -/

theorem variableValue {name : String} (hname : names name) :
    Local names (fun _ => True) (variableValue name : Evaluation σ Value) (variableValue name) := by
  unfold Interpreter.variableValue
  split
  · exact .pure trivial
  split
  · exact .pure trivial
  split
  · exact .pure trivial
  · refine .globals_bind fun g g' hg => ?_
    rw [hg name hname]
    split
    · exact .pure trivial
    · exact .fail _

theorem namedCallee {head : Expr} (hnames : ∀ name, head = .symbol name → names name) :
    Local names (fun named => named = none → head.IsComputed)
      (namedCallee head : Evaluation σ (Option Builtin)) (namedCallee head) := by
  unfold Interpreter.namedCallee
  split
  · next name =>
    split
    · exact .pure (by simp)
    · next hb =>
      refine .globals_bind fun g g' hg => ?_
      rw [Globals.contains, Globals.contains, hg name (hnames name rfl)]
      split
      · exact .pure fun _ other hother => Expr.symbol.inj hother ▸ hb
      · exact .fail _
  · next hhead => exact .pure fun _ name hname => absurd hname (hhead name)

theorem calleeOfValue (v : Value) :
    Local names (fun _ => True) (calleeOfValue v : Evaluation σ Builtin) (calleeOfValue v) := by
  unfold Interpreter.calleeOfValue
  split
  · split
    · exact .pure trivial
    · exact .fail _
  · exact .fail _

theorem checkArity (b : Builtin) (count : Nat) :
    Local names (fun _ => b.descriptor.arity.accepts count = true)
      (checkArity b count : Evaluation σ Unit) (checkArity b count) := by
  unfold Interpreter.checkArity
  split
  · next h => exact .pure h
  · exact .fail _

theorem definable (target : Expr) :
    Local names (fun name => target = .symbol name ∧ IsDefinable name)
      (definable target : Evaluation σ String) (definable target) := by
  unfold Interpreter.definable
  split
  · split
    · exact .fail _
    · next h => exact .pure ⟨rfl, by simpa [IsDefinable] using h⟩
  · exact .fail _

theorem within {p : α → Prop} {i : Interpreter σ} {d d' : Nat} {x x' : Evaluation σ α}
    (hd : d = d') (hx : Local names p x x') : Local names p (i.within d x) (i.within d' x') := by
  subst hd
  unfold Interpreter.within
  split
  · exact hx
  · exact .fail _

end Local

/-- Runs of sessions that agree. -/
def locality (i : Interpreter σ) (names : String → Prop) : Comparison i i where
  Holds := Local names
  Good _ := True
  Calls _ _ := True
  Covers d d' e := d = d' ∧ ∀ name, e.Mentions name → names name
  pure := .pure
  bind := .bind
  head h := ⟨congrArg (· + 1) h.1, fun name hname => h.2 name (.item List.mem_cons_self hname)⟩
  operand h _ _ _ he := ⟨congrArg (· + 1) h.1,
    fun name hname => h.2 name (.item (List.mem_cons_of_mem _ he) hname)⟩
  within h hx := .within h.1 hx
  void := trivial
  literal _ := trivial
  quoted _ _ := trivial
  variableValue h := .variableValue (h.2 _ .symbol)
  namedCallee h :=
    .mono (.namedCallee fun name hhead => h.2 name (hhead ▸ .item List.mem_cons_self .symbol))
      fun _ h => ⟨fun _ _ => trivial, h⟩
  calleeOfValue _ _ := .calleeOfValue _
  checkArity _ _ := .checkArity _ _
  definable _ _ := .definable _
  define _ _ _ _ := .define _ _
  clock _ := .ask _ _
  sameScale := .refl i
  apply _ _ _ := .mono (.outward (Primitive.outward_apply i _ _)) fun _ _ => trivial

/-- **In sessions that agree on the names in an expression its evaluation does the same.** -/
theorem local_eval (i : Interpreter σ) (d : Nat) (e : Expr) :
    Local e.Mentions (fun _ => True) (i.eval d e) (i.eval d e) :=
  (locality i e.Mentions).eval e ⟨rfl, fun _ h => h⟩

/-- **Evaluation is local in the definitions.** In two sessions with the same host that define the
names in an expression alike, evaluating it has the same result, adds the same warnings and
requests, and again leaves these names defined alike. In either session no definition is removed.
In a genuine one, such as every session that comes about, a name is defined anew only where a list
`(def name ...)` stands in the expression. -/
theorem eval_local (i : Interpreter σ) (d : Nat) (e : Expr) {s t : Session σ}
    (hhost : s.host = t.host)
    (hglobals : ∀ name, e.Mentions name → s.globals.get? name = t.globals.get? name) :
    let run := i.eval d e s
    let run' := i.eval d e t
    run.1 = run'.1 ∧ run.2.host = run'.2.host ∧
    (∃ ws, run.2.warnings = s.warnings ++ ws ∧ run'.2.warnings = t.warnings ++ ws) ∧
    (∃ rs, run.2.requests = s.requests ++ rs ∧ run'.2.requests = t.requests ++ rs) ∧
    (∀ name, e.Mentions name → run.2.globals.get? name = run'.2.globals.get? name) ∧
    (∀ name, s.globals.contains name = true → run.2.globals.contains name = true) ∧
    (∀ name, t.globals.contains name = true → run'.2.globals.contains name = true) ∧
    (s.Genuine → ∀ name, ¬ e.Defines name → run.2.globals.get? name = s.globals.get? name) ∧
    (t.Genuine → ∀ name, ¬ e.Defines name → run'.2.globals.get? name = t.globals.get? name) ∧
    (s.Reachable → s.Genuine) ∧ (t.Reachable → t.Genuine) := by
  have hrun := local_eval i d e s t ⟨hhost, hglobals⟩
  exact ⟨hrun.result, hrun.agree.host, hrun.warnings, hrun.requests, hrun.agree.globals,
    s.retains_eval i d e, t.retains_eval i d e, fun hs => hs.eval_frame i d e,
    fun ht => ht.eval_frame i d e, Session.Reachable.genuine, Session.Reachable.genuine⟩

/-- The symbol `y` in a session without definitions, and after `x` was defined. -/
theorem eval_local_symbol :
    let i : Interpreter ScriptedHost := { host := ScriptedHost.host }
    let s : Session ScriptedHost := { host := { currentDir := .error .missing, unixTime := 0 } }
    let t := (i.eval 0 (.list [.symbol "def", .symbol "x", .int 1]) s).2
    s.host = t.host ∧
      (∀ name, (Expr.symbol "y").Mentions name → s.globals.get? name = t.globals.get? name) ∧
      t.Reachable ∧ (i.eval 0 (.symbol "y") s).1 = (i.eval 0 (.symbol "y") t).1 ∧
      (i.eval 0 (.symbol "y") t).2.globals.get? "x" = t.globals.get? "x" := by
  intro i s t
  have hhost : s.host = t.host := rfl
  have ht : t.Reachable := .eval i 0 _ (.start rfl)
  have hglobals : ∀ name, (Expr.symbol "y").Mentions name →
      s.globals.get? name = t.globals.get? name := by
    intro name hname
    cases hname
    rfl
  obtain ⟨hresult, -, -, -, -, -, -, -, hframe, -, hgenuine⟩ :=
    eval_local i 0 (.symbol "y") hhost hglobals
  exact ⟨hhost, hglobals, ht, hresult, hframe (hgenuine ht) "x" (by intro hx; cases hx)⟩

end HostScript
