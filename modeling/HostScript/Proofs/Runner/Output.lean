import Mathlib.Data.List.Forall2
import HostScript.Proofs.Evaluation.Evolution
import HostScript.Proofs.Machine.Answers
import HostScript.Proofs.Runner.Records

/-!
# What a run writes

On a terminal whose output is only added to, a run adds to the output what the commands of each form
write and then the record of the form, form by form (`Transcript`).

A run writes its lines between evaluations, to the state that the host works on, and takes the
warnings away. Neither changes the definitions, so what holds of forms that are evaluated one after
the other holds of the forms of a run: all of them and their results are written unbroken, and every
line is a record (`lines_unambiguous`).
-/

namespace HostScript

variable {σ : Type} {t : Terminal σ} {output : σ → String}

/-! ## Additions to the output -/

namespace Terminal.Appends

/-- Evaluation only adds to the output. -/
def evolution (h : t.Appends output) : Evolution t.host where
  Changes s u := ∃ written, output u.host = output s.host ++ written
  refl _ := exists_append_of_eq rfl
  trans := by
    rintro s u v ⟨first, hfirst⟩ ⟨second, hsecond⟩
    exact ⟨first ++ second, by rw [hsecond, hfirst, String.append_assoc]⟩
  define _ _ _ := exists_append_of_eq rfl
  warn _ _ := exists_append_of_eq rfl
  ask s request := h.answer request s.host

theorem evalForm (h : t.Appends output) (settings : Settings) (form : Expr) (s : Session σ) :
    ∃ written,
      output (s.evalForm ⟨t.host, settings⟩ form).2.host = output s.host ++ written :=
  Evolution.eval (i := ⟨t.host, settings⟩) h.evolution 0 form s

theorem foldl_complain (h : t.Appends output) (wording : String → String) (warnings : List String)
    (state : σ) :
    output (warnings.foldl (fun state w => t.complain (wording w) state) state) = output state := by
  induction warnings generalizing state with
  | nil => rfl
  | cons w rest ih => rw [List.foldl_cons, ih, h.complain]

/-- Of a report only the line of the form is output. -/
theorem report (h : t.Appends output) (index : Nat) (form : Expr) (result : Except Signal Value)
    (s : Session σ) :
    output (Runner.report t index form result s).host =
      output s.host ++ Runner.line index form result := by
  show output (t.print _ _) = _
  rw [h.print, h.foldl_complain]

end Terminal.Appends

namespace Runner

open Text

/-! ## Runs -/

/-- `Transcript t output settings index forms s text` says that, from the session `s` on, a run of
the forms from number `index` on puts `text` on the output: what the commands of a form write, and
then its record, up to a form that finishes the script. -/
inductive Transcript (t : Terminal σ) (output : σ → String) (settings : Settings) :
    Nat → List Expr → Session σ → String → Prop
  | nil {index : Nat} {s : Session σ} : Transcript t output settings index [] s ""
  | finished {index : Nat} {form : Expr} {rest : List Expr} {s u : Session σ}
    {result : Except Signal Value} {status : UInt8} {written : String} :
    s.evalForm ⟨t.host, settings⟩ form = (result, u) → t.finished? u.host = some status →
    output u.host = output s.host ++ written →
    Transcript t output settings index (form :: rest) s written
  | record {index : Nat} {form : Expr} {rest : List Expr} {s u : Session σ}
    {result : Except Signal Value} {written line text : String} :
    s.evalForm ⟨t.host, settings⟩ form = (result, u) → t.finished? u.host = none →
    output u.host = output s.host ++ written →
    IsRecord line (toString index) form.render
      (renderResult (result.mapError Signal.condition)) →
    Transcript t output settings (index + 1) rest (report t index form result u) text →
    Transcript t output settings index (form :: rest) s (written ++ line ++ text)

/-- **What a run of forms adds to the output is the records of the forms in order.** -/
theorem exists_transcript (h : t.Appends output) (settings : Settings) :
    ∀ (forms : List Expr) (index : Nat) {s : Session σ}, s.OneLine →
      (∀ e ∈ forms, Unbroken e.chars) →
      ∃ text, Transcript t output settings index forms s text ∧
        output (runForms t settings index forms s).2 = output s.host ++ text
  | [], index, s, _, _ => ⟨"", .nil, by rw [runForms, String.append_empty]⟩
  | form :: rest, index, s, hs, hforms => by
    have hform : Unbroken form.chars := hforms form List.mem_cons_self
    obtain ⟨hsession, hresult⟩ := hs.evalForm ⟨t.host, settings⟩ hform
    obtain ⟨written, hwritten⟩ := h.evalForm settings form s
    rcases heval : s.evalForm ⟨t.host, settings⟩ form with ⟨result, u⟩
    rw [heval] at hsession hresult hwritten
    unfold runForms
    rw [heval]
    cases hfinished : t.finished? u.host with
    | some status =>
      refine ⟨written, .finished heval hfinished hwritten, ?_⟩
      dsimp only
      rw [hfinished, hwritten]
    | none =>
      -- The host and the warnings have changed, the definitions have not.
      obtain ⟨text, htext, houtput⟩ := exists_transcript h settings rest (index + 1)
        (s := report t index form result u) (hsession.of_globals_eq rfl)
        fun e he => hforms e (List.mem_cons_of_mem _ he)
      refine ⟨written ++ line index form result ++ text,
        .record heval hfinished hwritten (recordedAt_of_unbroken index hform hresult) htext, ?_⟩
      dsimp only
      rw [hfinished, houtput, h.report, hwritten]
      simp only [String.append_assoc]

/-- **The lines of a run are unambiguous.** From a session without definitions all forms of a script
and their results are written unbroken, whatever the host says, and each line is the record of its
form. What a run adds to the output of its terminal, besides what commands write, is these records
in order. -/
theorem lines_unambiguous {source : String} {forms : List Expr} (h : readForms source = .ok forms) :
    (∀ {σ : Type} (i : Interpreter σ) (s : Session σ), s.globals = {} →
      List.Forall₂ (fun form result =>
        Unbroken form.render.toList ∧
        Unbroken (renderResult (result.mapError Signal.condition)).toList ∧
        ∀ index, RecordedAt index form result) forms (s.evalForms i forms).1) ∧
    ∀ {σ : Type} (t : Terminal σ) (output : σ → String), t.Appends output → ∀ state : σ,
      ∃ text, Transcript t output (.ofLookup (t.lookup state)) 1 forms { host := state } text ∧
        output (runText t source state).2 = output state ++ text := by
  have hforms := unbroken_of_readForms h
  refine ⟨fun i s hs => ?_, fun t output happends state => ?_⟩
  · obtain ⟨-, hresults⟩ := Session.evalForms_keeps Session.OneLine
      (fun result => Unbroken (renderResult (result.mapError Signal.condition)).toList)
      (fun form hform _ hs => hs.evalForm i (hforms form hform)) (.start hs)
    refine List.forall₂_iff_zip.mpr ⟨(Session.length_evalForms i forms s).symm, ?_⟩
    intro form result hmem
    obtain ⟨hmemForm, hmemResult⟩ := List.of_mem_zip hmem
    have hform := hforms form hmemForm
    have hresult := hresults result hmemResult
    exact ⟨Expr.unbroken_render.mpr hform, hresult, fun index =>
      recordedAt_of_unbroken index hform hresult⟩
  · rw [runText, h]
    exact exists_transcript happends _ forms 1 (.start rfl) hforms

/-- A host refuses a directory whose name has a line feed in it, and says why with a tab; and the
run on a machine without that directory. -/
theorem lines_unambiguous_refused :
    let i : Interpreter ScriptedHost := { host := ScriptedHost.host }
    let dir := String.ofList ['a', '\n', 'b']
    let error : HostError := ⟨.other, String.ofList ['x', '\t', 'y']⟩
    let s : Session ScriptedHost := { host := {
      currentDir := .error .missing, unixTime := 0, refusedDirs := [(dir, error)] } }
    let source := String.ofList ['(', 'c', 'd', '!', ' ', '"', 'a', '\n', 'b', '"', ')']
    let form : Expr := .list [.symbol "cd!", .text dir]
    let shown := "ERR (file-error (\"Changing directory\" \"x\\ty\" \"a\\nb\"))"
    let m : Machine := {}
    readForms source = .ok [form] ∧
      IsRecord (line 1 form (s.evalForm i form).1) "1" "(cd! \"a\\nb\")" shown ∧
      Machine.terminal.Appends Machine.output ∧
      ∃ text, Transcript Machine.terminal Machine.output (.ofLookup (Machine.terminal.lookup m)) 1
          [form] { host := m } text ∧
        (runText Machine.terminal source m).2.output = m.output ++ text := by
  intro i dir error s source form shown m
  have hsource : readForms source = .ok [form] := by
    rw [readForms, String.toList_ofList]
    rfl
  have hresult : (s.evalForm i form).1 = .error (.hostFailure .changingDirectory error dir) := rfl
  have hshown : renderResult ((s.evalForm i form).1.mapError Signal.condition) = shown := by
    rw [hresult]
    decide
  have hform : form.render = "(cd! \"a\\nb\")" := by decide
  obtain ⟨hresults, hruns⟩ := lines_unambiguous hsource
  obtain ⟨-, -, hrecorded⟩ := (List.forall₂_cons.mp (hresults i s rfl)).1
  have hrecord : RecordedAt 1 form (s.evalForm i form).1 := hrecorded 1
  rw [RecordedAt, hform, hshown] at hrecord
  exact ⟨hsource, hrecord, Machine.appends_output,
    hruns Machine.terminal Machine.output Machine.appends_output m⟩

end Runner

end HostScript
