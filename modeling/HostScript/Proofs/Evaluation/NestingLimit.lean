import HostScript.Host.Scripted
import HostScript.Proofs.Evaluation.Contract
import HostScript.Proofs.Expr.Nesting

/-!
# The limit on nesting

Two runs under different limits are the same up to where the lower limit is reached, and there the
one with the lower limit stops (`Truncates`). An expression that is not nested deeper than the limit
never reaches it, since an operand or a head has one evaluation more around it and is nested less
deep by at least one. `eval_withMaxDepth` puts both together.

All steps but the one that counts evaluations are `Plain`: they do not see the limit, do not report
it, and keep the warnings and requests that were made before them.
-/

namespace HostScript

variable {σ α β : Type}

/-- The interpreter with another limit on nesting. -/
def Interpreter.withMaxDepth (i : Interpreter σ) (limit : UInt64) : Interpreter σ :=
  { i with settings := { i.settings with maxDepth := limit } }

open Evaluation Interpreter

/-- A primitive does not see the limit. -/
theorem Primitive.apply_withMaxDepth (i : Interpreter σ) (limit : UInt64) (p : Primitive)
    (args : List Value) : p.apply (i.withMaxDepth limit) args = p.apply i args := by
  unfold Primitive.apply
  rfl

/-! ## The report -/

theorem Signal.symbol_eq_excessiveNesting {e : Signal} (h : e.symbol = "excessive-nesting") :
    ∃ limit, e = .excessiveNesting limit := by
  cases e with
  | excessiveNesting limit => exact ⟨limit, rfl⟩
  | hostFailure action error target =>
    have h : error.kind.symbol = "excessive-nesting" := h
    unfold HostError.Kind.symbol at h
    split at h <;> simp at h
  | _ => simp [Signal.symbol] at h

theorem toInt_toInt64_of_lt {limit : UInt64} (h : limit.toNat < Nat.pow 2 63) :
    limit.toInt64.toInt = limit.toNat := by
  show limit.toBitVec.toInt = limit.toNat
  rw [BitVec.toInt_eq_toNat_of_lt]
  · rfl
  · rw [Nat.pow_eq] at h
    show 2 * limit.toNat < 2 ^ 64
    omega

/-- A limit that fits 64 bits with sign is reported as it is. -/
theorem Signal.exists_condition_excessiveNesting {limit : UInt64} (h : limit.toNat < Nat.pow 2 63) :
    ∃ n : Int64, (excessiveNesting limit).condition = ⟨"excessive-nesting", [.int n]⟩ ∧
      n.toInt = limit.toNat :=
  ⟨limit.toInt64, rfl, toInt_toInt64_of_lt h⟩

/-! ## Plain steps -/

/-- Warnings and requests were added to those of `s`, if any, and none was taken away. -/
structure Session.Continues (s t : Session σ) : Prop where
  warnings : s.warnings <+: t.warnings
  requests : s.requests <+: t.requests

theorem Session.Continues.refl (s : Session σ) : s.Continues s :=
  ⟨List.prefix_rfl, List.prefix_rfl⟩

theorem Session.Continues.trans {s t u : Session σ} (h : s.Continues t) (h' : t.Continues u) :
    s.Continues u :=
  ⟨h.warnings.trans h'.warnings, h.requests.trans h'.requests⟩

/-- The contract of the steps that do not report excessive nesting. -/
def plainContract : Contract σ where
  Inv _ := True
  Changes := Session.Continues
  Fails e _ := ∀ limit, e ≠ .excessiveNesting limit
  refl := .refl
  trans := .trans

/-- A step that keeps the logs and does not report excessive nesting. -/
abbrev Plain (p : α → Prop) (x : Evaluation σ α) : Prop := plainContract.Holds p x

theorem Plain.ask (host : Host σ) (request : Request) : Plain (fun _ => True) (ask host request) :=
  Contract.holds_ask fun _ _ _ => ⟨trivial, List.prefix_rfl, List.prefix_append _ _⟩

theorem Plain.apply (i : Interpreter σ) (p : Primitive) (args : List Value) :
    Plain (fun _ => True) (p.apply i args) :=
  .mono (Contract.holds_of_outward (Primitive.outward_apply i p args)
    (fun _ _ _ he => he.ne_excessiveNesting)
    (fun _ => Contract.holds_warn fun _ _ => ⟨trivial, List.prefix_append _ _, List.prefix_rfl⟩)
    (fun request _ => Plain.ask i.host request)) fun _ _ => trivial

/-- A claim about two runs that differ in the limit, and in the number of evaluations around them,
with what is left to be proved of it: that plain steps are as claimed, and what counting does. -/
structure LimitComparison (i : Interpreter σ) (m m' : UInt64) where
  Holds : {α : Type} → (α → Prop) → Evaluation σ α → Evaluation σ α → Prop
  Covers : Nat → Nat → Expr → Prop
  ofPlain {α : Type} {p : α → Prop} {x : Evaluation σ α} : Plain p x → Holds p x x
  bind {α β : Type} {p : α → Prop} {q : β → Prop} {x x' : Evaluation σ α}
    {f f' : α → Evaluation σ β} :
    Holds p x x' → (∀ a, p a → Holds q (f a) (f' a)) → Holds q (x >>= f) (x' >>= f')
  item {d d' : Nat} {e : Expr} {items : List Expr} :
    Covers d d' (.list items) → e ∈ items → Covers (d + 1) (d' + 1) e
  within {d d' : Nat} {e : Expr} {x x' : Evaluation σ Value} :
    Covers d d' e → Holds (fun _ => True) x x' →
      Holds (fun _ => True) ((i.withMaxDepth m).within d x) ((i.withMaxDepth m').within d' x')

def LimitComparison.comparison {i : Interpreter σ} {m m' : UInt64} (c : LimitComparison i m m') :
    Comparison (i.withMaxDepth m) (i.withMaxDepth m') where
  Holds := c.Holds
  Good _ := True
  Calls _ _ := True
  Covers := c.Covers
  pure h := c.ofPlain (Contract.holds_pure h)
  bind := c.bind
  head h := c.item h List.mem_cons_self
  operand h _ _ _ he := c.item h (List.mem_cons_of_mem _ he)
  within := c.within
  void := trivial
  literal _ := trivial
  quoted _ _ := trivial
  variableValue _ := c.ofPlain <| Contract.holds_variableValue trivial trivial
    (fun _ _ => trivial) (fun _ _ _ _ => trivial) (fun _ _ _ _ _ => by simp [plainContract])
  namedCallee _ := c.ofPlain <| Contract.holds_namedCallee
    (fun h => ⟨fun _ _ => trivial, fun _ => h⟩) (fun _ _ _ _ => ⟨fun _ _ => trivial, by simp⟩)
    (fun _ _ _ _ _ _ => by simp [plainContract])
  calleeOfValue _ _ := c.ofPlain <| Contract.holds_calleeOfValue (fun _ _ _ _ => trivial)
    (fun _ _ _ => by simp [plainContract])
  checkArity _ _ := c.ofPlain <| Contract.holds_checkArity fun _ _ _ => by simp [plainContract]
  definable _ _ := c.ofPlain <| Contract.holds_definable (fun _ _ _ _ _ => by simp [plainContract])
    (fun _ _ _ => by simp [plainContract])
  define _ _ _ _ := c.ofPlain <| Contract.holds_define fun _ _ =>
    ⟨trivial, List.prefix_rfl, List.prefix_rfl⟩
  clock _ := c.ofPlain (.ask _ _)
  sameScale := SameScale.refl i
  apply {head p args} _ _ _ := by
    rw [Primitive.apply_withMaxDepth, Primitive.apply_withMaxDepth]
    exact c.ofPlain (.apply i p args)

/-! ## Cutting a run off -/

/-- `x` does the same as `x'`, or it stops with the report that `limit` is reached after a part of
what `x'` does. -/
def Truncates (limit : UInt64) (p : α → Prop) (x x' : Evaluation σ α) : Prop := ∀ s,
  (∀ a, (x' s).1 = .ok a → p a) ∧ s.Continues (x' s).2 ∧
    (x s = x' s ∨ (x s).1 = .error (.excessiveNesting limit) ∧ (x s).2.Continues (x' s).2)

theorem Truncates.bind {limit : UInt64} {p : α → Prop} {q : β → Prop} {x x' : Evaluation σ α}
    {f f' : α → Evaluation σ β} (hx : Truncates limit p x x')
    (hf : ∀ a, p a → Truncates limit q (f a) (f' a)) :
    Truncates limit q (x >>= f) (x' >>= f') := by
  intro s
  obtain ⟨hp, hc, hsame | ⟨hcut, hc'⟩⟩ := hx s
  -- Both go on, from the same session.
  · rcases h : x' s with ⟨e | a, t⟩
    · rw [h] at hc hsame
      rw [bind_error h, bind_error hsame]
      exact ⟨by simp, hc, Or.inl rfl⟩
    · rw [h] at hc hp hsame
      rw [bind_ok h, bind_ok hsame]
      obtain ⟨hq, hcf, hfa⟩ := hf a (hp a rfl) t
      exact ⟨hq, hc.trans hcf, hfa⟩
  -- The shorter run has stopped, and the longer one may go on.
  · have hcut : x s = (.error (.excessiveNesting limit), (x s).2) := by rw [← hcut]
    rw [bind_error hcut]
    rcases h : x' s with ⟨e | a, t⟩
    · rw [h] at hc hc'
      rw [bind_error h]
      exact ⟨by simp, hc, Or.inr ⟨rfl, hc'⟩⟩
    · rw [h] at hc hp hc'
      rw [bind_ok h]
      obtain ⟨hq, hcf, -⟩ := hf a (hp a rfl) t
      exact ⟨hq, hc.trans hcf, Or.inr ⟨rfl, hc'.trans hcf⟩⟩

theorem Truncates.within {i : Interpreter σ} {m m' : UInt64} (hle : m.toNat ≤ m'.toNat)
    {p : α → Prop} {x x' : Evaluation σ α} (h : Truncates m p x x') (d : Nat) :
    Truncates m p ((i.withMaxDepth m).within d x) ((i.withMaxDepth m').within d x') := by
  intro s
  obtain ⟨hp, hc, hx⟩ := h s
  by_cases hd : d < m.toNat
  · have hd' : d < m'.toNat := by omega
    rw [within_of_lt (i := i.withMaxDepth m) hd, within_of_lt (i := i.withMaxDepth m') hd']
    exact ⟨hp, hc, hx⟩
  · rw [within_of_not_lt (i := i.withMaxDepth m) hd]
    by_cases hd' : d < m'.toNat
    · rw [within_of_lt (i := i.withMaxDepth m') hd']
      exact ⟨hp, hc, Or.inr ⟨rfl, hc⟩⟩
    · rw [within_of_not_lt (i := i.withMaxDepth m') hd']
      exact ⟨by simp [Evaluation.fail], .refl s, Or.inr ⟨rfl, .refl s⟩⟩

/-- Runs with the same number of evaluations around them, the first with the lower limit. -/
def truncation (i : Interpreter σ) {m m' : UInt64} (hle : m.toNat ≤ m'.toNat) :
    LimitComparison i m m' where
  Holds := Truncates m
  Covers d d' _ := d = d'
  ofPlain h s := ⟨(h s trivial).2.2.1, (h s trivial).2.1, Or.inl rfl⟩
  bind := .bind
  item h _ := congrArg (· + 1) h
  within {d _ _ _ _} h hx := h ▸ hx.within hle d

/-- **Under the lower limit an expression does what it does under the higher one, or is cut
off.** -/
theorem truncates_eval (i : Interpreter σ) {m m' : UInt64} (hle : m.toNat ≤ m'.toNat) (d : Nat)
    (e : Expr) :
    Truncates m (fun _ => True) ((i.withMaxDepth m).eval d e) ((i.withMaxDepth m').eval d e) :=
  (truncation i hle).comparison.eval e rfl

/-- An expression takes no warnings and no requests away. -/
theorem continues_eval (i : Interpreter σ) (d : Nat) (e : Expr) (s : Session σ) :
    s.Continues (i.eval d e s).2 :=
  (truncates_eval i (Nat.le_refl i.settings.maxDepth.toNat) d e s).2.1

/-! ## Staying within the limit -/

/-- `x` and `x'` do the same and do not report excessive nesting. -/
def SamePlain (p : α → Prop) (x x' : Evaluation σ α) : Prop := x = x' ∧ Plain p x

theorem SamePlain.bind {p : α → Prop} {q : β → Prop} {x x' : Evaluation σ α}
    {f f' : α → Evaluation σ β} (hx : SamePlain p x x')
    (hf : ∀ a, p a → SamePlain q (f a) (f' a)) : SamePlain q (x >>= f) (x' >>= f') := by
  obtain ⟨rfl, hx⟩ := hx
  refine ⟨?_, hx.bind fun a ha => (hf a ha).2⟩
  funext s
  rcases h : x s with ⟨e | a, t⟩
  · rw [bind_error h, bind_error h]
  · rw [bind_ok h, bind_ok h, (hf a ((hx s trivial).2.2.1 a (by rw [h]))).1]

/-- Runs of an expression that is nested no deeper than the lower limit admits. -/
def withinLimit (i : Interpreter σ) {m m' : UInt64} (hle : m.toNat ≤ m'.toNat) :
    LimitComparison i m m' where
  Holds := SamePlain
  Covers d d' e := d = d' ∧ d + e.nesting ≤ m.toNat
  ofPlain h := ⟨rfl, h⟩
  bind := .bind
  item := by
    rintro d _ e items ⟨rfl, h⟩ he
    have := Expr.nesting_lt_of_mem he
    exact ⟨rfl, by omega⟩
  within := by
    rintro d _ e x x' ⟨rfl, h⟩ hx
    -- There is room for the expression itself, as it counts one.
    have hpos := e.nesting_pos
    have hd : d < m.toNat := by omega
    have hd' : d < m'.toNat := by omega
    rw [within_of_lt (i := i.withMaxDepth m) hd, within_of_lt (i := i.withMaxDepth m') hd']
    exact hx

/-- **An expression that is nested no deeper than the lower limit admits never meets a limit.** -/
theorem samePlain_eval (i : Interpreter σ) {m m' : UInt64} (hle : m.toNat ≤ m'.toNat) {d : Nat}
    {e : Expr} (hn : d + e.nesting ≤ m.toNat) :
    SamePlain (fun _ => True) ((i.withMaxDepth m).eval d e) ((i.withMaxDepth m').eval d e) :=
  (withinLimit i hle).comparison.eval e ⟨rfl, hn⟩

/-! ## Two limits -/

/-- **The limit on nesting changes nothing but where a run is cut off.** Under the lower of two
limits a form does the same as under the higher one, or it is reported to be nested too deep after
a part of the warnings and requests. A form that is nested no deeper than the lower limit does the
same, and is not so reported. -/
theorem eval_withMaxDepth (i : Interpreter σ) {m m' : UInt64} (hle : m ≤ m')
    (hlt : m'.toNat < Nat.pow 2 63) (e : Expr) (s : Session σ) :
    let run := (i.withMaxDepth m).eval 0 e s
    let run' := (i.withMaxDepth m').eval 0 e s
    (run = run' ∨
      (∃ signal n, run.1 = .error signal ∧
        signal.condition = ⟨"excessive-nesting", [.int n]⟩ ∧ n.toInt = m.toNat) ∧
      run.2.warnings <+: run'.2.warnings ∧ run.2.requests <+: run'.2.requests) ∧
    (e.nesting ≤ m.toNat →
      run = run' ∧ ∀ signal, run.1 = .error signal → signal.symbol ≠ "excessive-nesting") := by
  have hle := UInt64.le_iff_toNat_le.mp hle
  refine ⟨?_, fun hn => ?_⟩
  · obtain ⟨-, -, hsame | ⟨hcut, hlogs⟩⟩ := truncates_eval i hle 0 e s
    · exact Or.inl hsame
    · obtain ⟨n, hcondition, hvalue⟩ :=
        Signal.exists_condition_excessiveNesting (Nat.lt_of_le_of_lt hle hlt)
      exact Or.inr ⟨⟨_, n, hcut, hcondition, hvalue⟩, hlogs.warnings, hlogs.requests⟩
  · obtain ⟨hsame, hplain⟩ := samePlain_eval i hle (show 0 + e.nesting ≤ m.toNat by omega)
    refine ⟨congrFun hsame s, fun signal hsignal hsymbol => ?_⟩
    obtain ⟨limit, rfl⟩ := Signal.symbol_eq_excessiveNesting hsymbol
    exact (hplain s trivial).2.2.2 _ hsignal limit rfl

/-- The form `(do 1)` under the limits two and three. -/
theorem eval_withMaxDepth_sequence :
    let i : Interpreter ScriptedHost := { host := ScriptedHost.host }
    let s : Session ScriptedHost := { host := { currentDir := .error .missing, unixTime := 0 } }
    let e : Expr := .list [.symbol "do", .int 1]
    (2 : UInt64) ≤ 3 ∧ (3 : UInt64).toNat < Nat.pow 2 63 ∧ e.nesting ≤ (2 : UInt64).toNat ∧
      (i.withMaxDepth 2).eval 0 e s = (i.withMaxDepth 3).eval 0 e s :=
  have hn : (Expr.list [.symbol "do", .int 1]).nesting ≤ (2 : UInt64).toNat := by decide
  ⟨by decide, by decide, hn,
    ((eval_withMaxDepth _ (by decide) (by decide) _ _).2 hn).1⟩

end HostScript
