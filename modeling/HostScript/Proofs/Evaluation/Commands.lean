import HostScript.Host.Scripted
import HostScript.Proofs.Evaluation.Locality
import HostScript.Proofs.Evaluation.Validation
import HostScript.Proofs.Value.Equality

/-!
# Commands are made up of texts

The texts among the arguments of `sys` are the command line, and what else stands among them plays
no part: it is warned of, each time with its own index, and then the texts are run as if they stood
alone (`Primitive.system_texts`). What a command leaves tells how it ended (`Primitive.Tells`), and
no two ends are told by equal values. If arguments are strict, the first one that is no text is
refused, before anything is done.
-/

namespace HostScript

variable {σ : Type}

open Evaluation

namespace Primitive

/-! ## How a command ended -/

/-- The value and the warnings that tell how a command ended. -/
inductive Tells (command : String) : ProcessOutcome → Value → List String → Prop
  | success : Tells command (.exited 0) .void []
  | status {status : UInt8} {n : Int64} : status ≠ 0 → n.toInt = status.toNat →
    Tells command (.exited status) (.int n) []
  | signal {signal : Int32} {n : Int64} : n.toInt = signal.toInt →
    Tells command (.signaled signal)
      (.record [("command", .text command), ("signal", .int n)])
      ["sys: " ++ command ++ ": Did not exit normally"]

/-- Different ends are told by different values. -/
theorem Tells.beq_eq_false {command : String} {o o' : ProcessOutcome} {v v' : Value}
    {ws ws' : List String} (h : Tells command o v ws) (h' : Tells command o' v' ws')
    (hne : o ≠ o') : (v == v') = false := by
  rw [← Bool.not_eq_true]
  intro heq
  have hsame : Value.Same v v' := (Value.equal_iff_same v v').mp heq
  cases h with
  | success =>
    cases hsame
    cases h'
    exact hne rfl
  | status _ hn =>
    cases hsame
    cases h' with
    | status _ hn' =>
      refine hne (congrArg _ (UInt8.toNat_inj.mp ?_))
      omega
  | signal hn =>
    cases hsame with
    | record hfields =>
      cases hfields with
      | cons _ hrest =>
        cases hrest with
        | cons hsignal _ =>
          cases hsignal
          cases h' with
          | signal hn' => exact hne (congrArg _ (Int32.toInt_inj.mp (hn.symm.trans hn')))

/-- What a command leaves tells how it ended. -/
theorem runCommand_tells {host : Host σ} {argv : ArgVector} {s : Session σ}
    {outcome : ProcessOutcome}
    (h : (host.answer (.runProcess argv) s.host).1 = .ok outcome) :
    ∃ v ws, Tells argv.programName outcome v ws ∧
      runCommand host argv s = (.ok v, (s.asked host (.runProcess argv)).warned ws) := by
  unfold runCommand
  rw [ask_bind_apply, h]
  cases outcome with
  | exited status =>
    by_cases hzero : status = 0
    · subst hzero
      refine ⟨_, _, .success, ?_⟩
      rw [Session.warned_nil]
      rfl
    · refine ⟨_, _, .status (n := Int64.ofNat status.toNat) hzero ?_, ?_⟩
      · exact Int64.toInt_ofNat_of_lt (by have := status.toNat_lt; omega)
      · rw [Session.warned_nil]
        simp only [if_neg hzero]
        rfl
  | signaled signal => exact ⟨_, _, .signal (Int32.toInt_toInt64 signal), rfl⟩

/-! ## The texts among the arguments -/

/-- The texts among the arguments, as values and as words. -/
theorem filter_tag_eq_map_text (args : List Value) :
    args.filter (·.tag == .text) = (args.filterMap Value.text?).map Value.text := by
  induction args with
  | nil => rfl
  | cons v rest ih =>
    cases hv : v.text? with
    | some word =>
      obtain rfl := Value.text?_eq_some_iff.mp hv
      rw [List.filter_cons_of_pos rfl, List.filterMap_cons_some hv, List.map_cons, ih]
    | none =>
      have htag : v.tag ≠ .text := Value.text?_eq_none_iff.mp hv
      rw [List.filter_cons_of_neg (by simpa using htag), List.filterMap_cons_none hv, ih]

theorem filterMap_text?_map_text (words : List String) :
    (words.map Value.text).filterMap Value.text? = words := by
  rw [List.filterMap_map]
  exact List.filterMap_some

theorem skipWarnings_of_forall {args : List Value} (h : ∀ v ∈ args, v.tag = .text) (index : Nat) :
    skipWarnings index args = [] := by
  unfold skipWarnings
  rw [List.map_eq_nil_iff, List.filter_eq_nil_iff]
  rintro ⟨v, k⟩ hv
  simpa using h v (List.fst_mem_of_mem_zipIdx hv)

/-- Unless they are strict, arguments are run as the texts among them, after a warning of each
other one. -/
theorem system_texts (i : Interpreter σ) {args : List Value}
    (h : i.settings.strictSysArgs = true → ∀ v ∈ args, v.tag = .text) (s : Session σ) :
    system i args s =
      system i (args.filter (·.tag == .text)) (s.warned (skipWarnings 0 args)) := by
  have htexts : ∀ v ∈ args.filter (·.tag == .text), v.tag = .text := fun v hv => by
    simpa using (List.mem_filter.mp hv).2
  rw [system_of_lenient i h, system_of_lenient i fun _ => htexts, skipWarnings_of_forall htexts,
    Session.warned_nil, filter_tag_eq_map_text, filterMap_text?_map_text]

/-- If arguments are strict, the first one that is no text is refused, and nothing is done. -/
theorem system_of_strict (i : Interpreter σ) (hstrict : i.settings.strictSysArgs = true)
    {args : List Value} {v : Value} (hv : args.find? (·.tag != .text) = some v) (s : Session σ) :
    system i args s = (.error (.wrongTypeArgument .text v), s) := by
  unfold system
  rw [hstrict, bind_error (commandWords_of_strict hv 0 s)]

/-- Texts that hold no NUL are the words of the process that is run. -/
theorem system_of_command (i : Interpreter σ) {args : List Value}
    (h : i.settings.strictSysArgs = true → ∀ v ∈ args, v.tag = .text) {command : String}
    {rest : List Value} (htexts : args.filter (·.tag == .text) = .text command :: rest)
    (hnul : ∀ word, .text word ∈ args → '\x00' ∉ word.toList) (s : Session σ) :
    ∃ argv : ArgVector, argv.words.map Value.text = args.filter (·.tag == .text) ∧
      argv.programName = command ∧
      system i args s = runCommand i.host argv (s.warned (skipWarnings 0 args)) := by
  have hwordsOf : args.filterMap Value.text? = command :: rest.filterMap Value.text? := by
    rw [← filterMap_text?_map_text (args.filterMap Value.text?), ← filter_tag_eq_map_text]
    exact congrArg _ htexts
  have hadmits : sys.Admits i.settings.strictSysArgs args := by
    refine admits_sys_iff.mpr ⟨h, by rw [hwordsOf]; exact List.cons_ne_nil _ _, fun w hw => ?_⟩
    obtain ⟨v, hv, hword⟩ := List.mem_filterMap.mp hw
    exact hnul w (Value.text?_eq_some_iff.mp hword ▸ hv)
  obtain ⟨argv, hwords, hsystem⟩ := system_of_admits i hadmits
  refine ⟨argv, by rw [hwords, ← filter_tag_eq_map_text], ?_, hsystem s⟩
  unfold ArgVector.programName ArgVector.program?
  rw [hwords, hwordsOf]
  rfl

/-- Warnings that were noted before play no part in what a primitive does. -/
theorem sameRun_apply_warned (i : Interpreter σ) (p : Primitive) (args : List Value)
    (s : Session σ) (ws : List String) :
    SameRun (fun _ => True) Answer s (s.warned ws) (p.apply i args s)
      (p.apply i args (s.warned ws)) :=
  Local.outward (outward_apply i p args) s (s.warned ws) ⟨rfl, fun _ _ => rfl⟩

/-- **The texts among the arguments are the command line.** If arguments are strict, the first one
that is no text is refused, and nothing is done. Otherwise the texts are run as if they stood alone,
and what else is among the arguments is warned of, by its index, before anything that this warns of.
Texts that hold no NUL are the words of the one process that is started, and the value tells how it
ended. Different ends of a command are told by different values. -/
theorem apply_sys_texts (i : Interpreter σ) (args : List Value) (s : Session σ) :
    let texts := args.filter (·.tag == .text)
    let run := sys.apply i args s
    let onTexts := sys.apply i texts s
    (∀ v, i.settings.strictSysArgs = true → args.find? (·.tag != .text) = some v →
      ∃ e, run = (.error e, s) ∧ e.condition = ⟨"wrong-type-argument", [.symbol "textp", v]⟩) ∧
    ((i.settings.strictSysArgs = true → ∀ v ∈ args, v.tag = .text) →
      (run.1 = onTexts.1 ∧ run.2.host = onTexts.2.host ∧ run.2.requests = onTexts.2.requests ∧
        ∃ ws, onTexts.2.warnings = s.warnings ++ ws ∧
          run.2.warnings = s.warnings ++ skipWarnings 0 args ++ ws) ∧
      ∀ command rest, texts = .text command :: rest →
        (∀ word, .text word ∈ args → '\x00' ∉ word.toList) →
        ∃ argv : ArgVector, argv.words.map Value.text = texts ∧
          run.2.requests = s.requests ++ [.runProcess argv] ∧
          ∀ outcome, (i.host.answer (.runProcess argv) s.host).1 = .ok outcome →
            ∃ v ws, Tells command outcome v ws ∧
              run = (.ok v,
                (s.asked i.host (.runProcess argv)).warned (skipWarnings 0 args ++ ws))) ∧
    ∀ command o o' v v' ws ws', Tells command o v ws → Tells command o' v' ws' → o ≠ o' →
      (v == v') = false := by
  intro texts run onTexts
  refine ⟨fun v hstrict hfind => ?_, fun h => ⟨?_, fun command rest htexts hnul => ?_⟩,
    fun _ _ _ _ _ _ _ => Tells.beq_eq_false⟩
  · exact ⟨_, system_of_strict i hstrict hfind s, rfl⟩
  · have hrun : run = sys.apply i texts (s.warned (skipWarnings 0 args)) := system_texts i h s
    obtain ⟨-, hresult, hagree, ⟨ws, hws, hws'⟩, ⟨rs, hrs, hrs'⟩⟩ :=
      sameRun_apply_warned i sys texts s (skipWarnings 0 args)
    rw [hrun]
    exact ⟨hresult.symm, hagree.host.symm, hrs'.trans hrs.symm, ws, hws, hws'⟩
  · obtain ⟨argv, hwords, rfl, hrun⟩ := system_of_command i h htexts hnul s
    change run = _ at hrun
    refine ⟨argv, hwords, ?_, fun outcome houtcome => ?_⟩
    · obtain ⟨ws, hsession⟩ :=
        (makes_runCommand i.host argv (s.warned (skipWarnings 0 args))).session
      rw [hrun, hsession]
      rfl
    · obtain ⟨v, ws, htells, htold⟩ :=
        runCommand_tells (s := s.warned (skipWarnings 0 args)) houtcome
      refine ⟨v, ws, htells, ?_⟩
      rw [hrun, htold, ← Session.warned_warned]
      rfl

/-- The arguments `7 "sh" x "-c"`, and a process that is ended by signal 9. Strict arguments are
refused at the `7`. -/
theorem apply_sys_texts_signal :
    let i : Interpreter ScriptedHost := { host := ScriptedHost.host }
    let strict : Interpreter ScriptedHost :=
      { host := ScriptedHost.host, settings := { strictSysArgs := true } }
    let s : Session ScriptedHost :=
      { host := { currentDir := .error .missing, unixTime := 0, outcomes := [.ok (.signaled 9)] } }
    let args : List Value := [.int 7, .text "sh", .symbol "x", .text "-c"]
    let run := sys.apply i args s
    i.settings.strictSysArgs = false ∧
      run.1 = .ok (.record [("command", .text "sh"), ("signal", .int 9)]) ∧
      run.2.warnings = ["sys: argument 0 is not text, skipping: 7",
        "sys: argument 2 is not text, skipping: x", "sys: sh: Did not exit normally"] ∧
      (∃ argv : ArgVector, argv.words = ["sh", "-c"] ∧ run.2.requests = [.runProcess argv]) ∧
      ∃ e, sys.apply strict args s = (.error e, s) ∧
        e.condition = ⟨"wrong-type-argument", [.symbol "textp", .int 7]⟩ := by
  intro i strict s args run
  have hlenient : i.settings.strictSysArgs = false := rfl
  obtain ⟨-, hrun, -⟩ := apply_sys_texts i args s
  obtain ⟨-, hcall⟩ := hrun (by rw [hlenient]; nofun)
  have hnul : ∀ word, Value.text word ∈ args → '\x00' ∉ word.toList := by
    intro word hword
    simp only [args, List.mem_cons, Value.text.injEq, List.not_mem_nil, reduceCtorEq, or_false,
      false_or] at hword
    rcases hword with rfl | rfl <;> decide
  obtain ⟨argv, hargv, hrequests, hends⟩ := hcall "sh" [.text "-c"] rfl hnul
  obtain ⟨v, ws, htells, hwhole⟩ := hends (.signaled 9) rfl
  have hwords : argv.words = ["sh", "-c"] := by
    rw [← filterMap_text?_map_text argv.words, hargv]
    rfl
  refine ⟨hlenient, ?_, ?_, ⟨argv, hwords, hrequests⟩, ?_⟩
  · show (sys.apply i args s).1 = _
    rw [hwhole]
    cases htells with
    | @signal _ n hn => rw [show n = 9 from Int64.toInt_inj.mp hn]
  · show (sys.apply i args s).2.warnings = _
    rw [hwhole]
    cases htells
    show [] ++ (skipWarnings 0 args ++ ["sys: " ++ "sh" ++ ": Did not exit normally"]) = _
    decide
  · exact (apply_sys_texts strict args s).1 (.int 7) rfl rfl

end Primitive

end HostScript
