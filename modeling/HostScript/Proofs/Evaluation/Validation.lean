import HostScript.Proofs.Evaluation.Contract
import HostScript.Proofs.Host.ArgVector

/-!
# Arguments are validated before anything is done

`Primitive.Admits` says of which arguments a primitive can make a request, and `Primitive.Operation`
of which request it is. A primitive that does not admit its arguments is refused and asks the host
for nothing. Otherwise it makes its request once; only a working directory that cannot be read is
followed by one more, for the hint (`Request.further`). If the host fails to change the directory
or to run the command, the failure is reported and warned of (`Primitive.apply_validated`).
-/

namespace HostScript

variable {σ : Type}

open Evaluation

/-! ## Sessions after warnings and requests -/

namespace Session

/-- The session with further warnings. -/
def warned (s : Session σ) (warnings : List String) : Session σ :=
  { s with warnings := s.warnings ++ warnings }

/-- The session after the host has answered a request. -/
def asked (host : Host σ) (s : Session σ) (request : Request) : Session σ :=
  { s with host := (host.answer request s.host).2, requests := s.requests ++ [request] }

@[simp] theorem warned_nil (s : Session σ) : s.warned [] = s := by
  unfold warned
  rw [List.append_nil]

@[simp] theorem warned_warned (s : Session σ) (ws vs : List String) :
    (s.warned ws).warned vs = s.warned (ws ++ vs) := by
  unfold warned
  rw [List.append_assoc]

end Session

theorem Evaluation.ask_bind_apply {α : Type} (host : Host σ) (request : Request)
    (f : request.Answer → Evaluation σ α) (s : Session σ) :
    (ask host request >>= f) s = f (host.answer request s.host).1 (s.asked host request) := rfl

theorem Evaluation.warn_bind_apply {α : Type} (message : String) (f : Unit → Evaluation σ α)
    (s : Session σ) : (warn message >>= f) s = f () (s.warned [message]) := rfl

/-! ## Requests and their answers -/

namespace Request

/-- The obstacle that an answer tells of. -/
def failure? : (request : Request) → request.Answer → Option HostError
  | .currentDir, .error e => some e
  | .setCurrentDir _, .error e => some e
  | .runProcess _, .error e => some e
  | _, _ => none

/-- The requests that follow a request because of its answer. -/
def further : (request : Request) → request.Answer → List Request
  | .currentDir, .error _ => [.pwdHint]
  | _, _ => []

/-- What a request that changes or starts something does, in words, and to what. -/
def subject? : Request → Option (String × String)
  | .setCurrentDir path => some ("Changing directory", path)
  | .runProcess argv => some ("Searching for program", argv.words.headD "")
  | _ => none

theorem further_of_failure?_eq_none {request : Request} {answer : request.Answer}
    (h : request.failure? answer = none) : request.further answer = [] := by
  match request, answer with
  | .currentDir, .error _ => cases h
  | .currentDir, .ok _ => rfl
  | .pwdHint, _ | .unixTime, _ | .cpuTime, _ | .setCurrentDir _, _ | .runProcess _, _
  | .exit _, _ => rfl

theorem further_of_subject? {request : Request} {answer : request.Answer}
    {subject : String × String} (h : request.subject? = some subject) :
    request.further answer = [] := by
  cases request with
  | setCurrentDir path => rfl
  | runProcess argv => rfl
  | _ => cases h

end Request

/-- The failure is about the arguments and not about the host. -/
def Signal.IsRefusal (e : Signal) : Prop :=
  e.symbol ∈ ["wrong-number-of-arguments", "wrong-type-argument", "error"]

theorem Signal.not_isRefusal_hostFailure (action : Action) (error : HostError) (target : String) :
    ¬ (hostFailure action error target).IsRefusal := by
  show error.kind.symbol ∉ _
  cases error.kind <;> simp [HostError.Kind.symbol]

namespace Primitive

/-! ## Which arguments are admitted -/

/-- The primitive takes so many arguments, and they are such that it can make its request: a path, a
status, or the words of a command. -/
def Admits (strict : Bool) (p : Primitive) (args : List Value) : Prop :=
  p.descriptor.arity.accepts args.length = true ∧
    match p with
    | cd => ∀ v ∈ args, v.tag = .text
    | exit => ∀ v ∈ args, v.tag = .int
    | sys => (∃ v ∈ args, v.tag = .text) ∧ (∀ word, .text word ∈ args → '\x00' ∉ word.toList) ∧
      (strict = true → ∀ v ∈ args, v.tag = .text)
    | pwd => True
    | now => True

/-- The request that a primitive makes for its arguments. The status of an exit is the remainder of
the argument; the command is made up of the texts among the arguments. -/
inductive Operation : Primitive → List Value → Request → Prop
  | cd (path : String) : Operation cd [.text path] (.setCurrentDir path)
  | pwd : Operation pwd [] .currentDir
  | exit {code : Int64} {status : UInt8} : (status.toNat : Int) = code.toInt % 256 →
    Operation exit [.int code] (.exit status)
  | now : Operation now [] .unixTime
  | sys {args : List Value} {argv : ArgVector} : argv.words = args.filterMap Value.text? →
    Operation sys args (.runProcess argv)

/-- A status is cut to its remainder by 256. -/
theorem toNat_lowByte (code : Int64) : ((lowByte code).toNat : Int) = code.toInt % 256 := by
  have hlow : (lowByte code).toNat = code.toUInt64.toNat % 256 := UInt64.toNat_toUInt8 _
  have hcode : code.toInt = code.toUInt64.toBitVec.toInt := rfl
  have hnat : code.toUInt64.toBitVec.toNat = code.toUInt64.toNat := rfl
  rw [hlow, hcode, BitVec.toInt_eq_toNat_cond, hnat]
  split <;> omega

/-! ## The words of a command -/

/-- The warnings of arguments that are no texts, each with its index. -/
def skipWarnings (index : Nat) (args : List Value) : List String :=
  ((args.zipIdx index).filter (·.1.tag != .text)).map fun (v, k) =>
    "sys: argument " ++ toString k ++ " is not text, skipping: " ++ v.render

/-- Unless they are strict, arguments that are no texts are passed over. -/
theorem commandWords_of_lenient {strict : Bool} {args : List Value}
    (h : strict = true → ∀ v ∈ args, v.tag = .text) (index : Nat) (s : Session σ) :
    commandWords strict index args s =
      (.ok (args.filterMap Value.text?), s.warned (skipWarnings index args)) := by
  induction args generalizing index s with
  | nil => simp [commandWords, skipWarnings, pure_apply]
  | cons v rest ih =>
    have hrest := ih fun hstrict w hw => h hstrict w (List.mem_cons_of_mem v hw)
    rw [commandWords]
    cases hv : v.text? with
    | some word =>
      obtain rfl := Value.text?_eq_some_iff.mp hv
      show (commandWords strict (index + 1) rest >>= _) s = _
      rw [bind_ok (hrest _ _)]
      simp [skipWarnings, List.zipIdx_cons, Value.tag, Value.text?, pure_apply]
    | none =>
      have htag : v.tag ≠ .text := Value.text?_eq_none_iff.mp hv
      have hstrict : strict = false := by
        cases strict with
        | false => rfl
        | true => exact absurd (h rfl v List.mem_cons_self) htag
      simp only [hstrict, Bool.false_eq_true, if_false] at hrest ⊢
      rw [warn_bind_apply, hrest]
      simp [skipWarnings, List.zipIdx_cons, htag, hv]

/-- Strict arguments are refused at the first one that is no text. -/
theorem commandWords_of_strict {args : List Value} {v : Value}
    (h : args.find? (·.tag != .text) = some v) (index : Nat) (s : Session σ) :
    commandWords true index args s = (.error (.wrongTypeArgument .text v), s) := by
  induction args generalizing index s with
  | nil => cases h
  | cons w rest ih =>
    rw [commandWords]
    by_cases hw : w.tag = .text
    · obtain ⟨word, rfl⟩ := Value.tag_eq_text_iff.mp hw
      rw [List.find?_cons_of_neg (by simp [hw])] at h
      show (commandWords true (index + 1) rest >>= _) s = _
      rw [bind_error (ih h _ _)]
    · rw [List.find?_cons_of_pos (by simp [hw])] at h
      obtain rfl := Option.some.inj h
      rw [Value.text?_eq_none_iff.mpr hw]
      rfl

/-- The step of running a command once its words are known. -/
def runWords (host : Host σ) (words : List String) : Evaluation σ Value :=
  if words.isEmpty then fail .missingCommand
  else match ArgVector.ofList? words with
    | .error _ => fail .nulInArgument
    | .ok argv => runCommand host argv

theorem runWords_of_noNul (host : Host σ) {words : List String} (hne : words ≠ [])
    (hnul : ∀ w ∈ words, '\x00' ∉ w.toList) :
    ∃ argv : ArgVector, argv.words = words ∧ runWords host words = runCommand host argv := by
  obtain ⟨argv, hargv⟩ := ArgVector.exists_ofList?_iff.mpr hnul
  refine ⟨argv, ArgVector.words_of_ofList? hargv, ?_⟩
  rw [runWords, if_neg (by simpa using hne), hargv]

/-- No words and words with a NUL are refused. -/
theorem runWords_refused (host : Host σ) {words : List String}
    (h : ¬ (words ≠ [] ∧ ∀ w ∈ words, '\x00' ∉ w.toList)) :
    ∃ e : Signal, e.IsRefusal ∧ runWords host words = fail e := by
  by_cases hne : words = []
  · subst hne
    exact ⟨.missingCommand, by simp [Signal.IsRefusal, Signal.symbol], rfl⟩
  · cases hargv : ArgVector.ofList? words with
    | ok argv => exact absurd ⟨hne, ArgVector.exists_ofList?_iff.mp ⟨argv, hargv⟩⟩ h
    | error fault =>
      refine ⟨.nulInArgument, by simp [Signal.IsRefusal, Signal.symbol], ?_⟩
      rw [runWords, if_neg (by simpa using hne), hargv]

theorem system_of_lenient (i : Interpreter σ) {args : List Value}
    (h : i.settings.strictSysArgs = true → ∀ v ∈ args, v.tag = .text) (s : Session σ) :
    system i args s =
      runWords i.host (args.filterMap Value.text?) (s.warned (skipWarnings 0 args)) := by
  unfold system
  rw [bind_ok (commandWords_of_lenient h 0 s)]
  rfl

/-- What is asked of the texts among the arguments is asked of the words of the command. -/
theorem admits_sys_iff {strict : Bool} {args : List Value} :
    sys.Admits strict args ↔ (strict = true → ∀ v ∈ args, v.tag = .text) ∧
      args.filterMap Value.text? ≠ [] ∧
      ∀ w ∈ args.filterMap Value.text?, '\x00' ∉ w.toList := by
  have hmem : ∀ word, word ∈ args.filterMap Value.text? ↔ .text word ∈ args := by
    simp [Value.text?_eq_some_iff]
  have hne : args.filterMap Value.text? ≠ [] ↔ ∃ v ∈ args, v.tag = .text := by
    constructor
    · intro hne
      obtain ⟨word, hword⟩ := List.exists_mem_of_ne_nil _ hne
      exact ⟨.text word, (hmem word).mp hword, rfl⟩
    · rintro ⟨v, hv, htag⟩
      obtain ⟨word, rfl⟩ := Value.tag_eq_text_iff.mp htag
      exact List.ne_nil_of_mem ((hmem word).mpr hv)
  have harity : sys.descriptor.arity.accepts args.length = true :=
    Arity.accepts_atLeast_iff.mpr (Nat.zero_le _)
  rw [hne]
  simp only [hmem]
  constructor
  · rintro ⟨-, htext, hnul, hstrict⟩
    exact ⟨hstrict, htext, hnul⟩
  · rintro ⟨hstrict, htext, hnul⟩
    exact ⟨harity, htext, hnul, hstrict⟩

/-- The words of a command are the texts among the arguments. -/
theorem system_of_admits (i : Interpreter σ) {args : List Value}
    (h : sys.Admits i.settings.strictSysArgs args) :
    ∃ argv : ArgVector, argv.words = args.filterMap Value.text? ∧
      ∀ s, system i args s = runCommand i.host argv (s.warned (skipWarnings 0 args)) := by
  obtain ⟨hstrict, hne, hnul⟩ := admits_sys_iff.mp h
  obtain ⟨argv, hwords, hrun⟩ := runWords_of_noNul i.host hne hnul
  refine ⟨argv, hwords, fun s => ?_⟩
  rw [system_of_lenient i hstrict s, hrun]

/-- A command that is not admitted is refused, if with warnings of what was passed over. -/
theorem system_of_not_admits (i : Interpreter σ) {args : List Value}
    (h : ¬ sys.Admits i.settings.strictSysArgs args) (s : Session σ) :
    ∃ e ws, e.IsRefusal ∧ system i args s = (.error e, s.warned ws) := by
  by_cases hstrict : i.settings.strictSysArgs = true → ∀ v ∈ args, v.tag = .text
  · obtain ⟨e, he, hrun⟩ := runWords_refused i.host fun hwords =>
      h (admits_sys_iff.mpr ⟨hstrict, hwords⟩)
    refine ⟨e, skipWarnings 0 args, he, ?_⟩
    rw [system_of_lenient i hstrict s, hrun]
    rfl
  · obtain ⟨htrue, v, hv, htag⟩ : i.settings.strictSysArgs = true ∧ ∃ v ∈ args, v.tag ≠ .text := by
      simpa using hstrict
    obtain ⟨u, hfind⟩ : ∃ u, args.find? (·.tag != .text) = some u :=
      Option.isSome_iff_exists.mp (List.find?_isSome.mpr ⟨v, hv, by simpa using htag⟩)
    refine ⟨.wrongTypeArgument .text u, [], by simp [Signal.IsRefusal, Signal.symbol], ?_⟩
    unfold system
    rw [htrue, bind_error (commandWords_of_strict hfind 0 s), Session.warned_nil]

/-! ## Requests that are made -/

/-- The run makes a request, and is not refused. -/
structure Makes (host : Host σ) (caller : String) (request : Request) (s : Session σ)
    (run : Except Signal Value × Session σ) : Prop where
  /-- The host is asked once, and then only for what the answer calls for; nothing but warnings
  comes with it. -/
  session : ∃ warnings, run.2 = ((request :: request.further (host.answer request s.host).1).foldl
    (Session.asked host) s).warned warnings
  notRefused : ∀ e, run.1 = .error e → ¬ e.IsRefusal
  /-- If the host could not change or start something, that is reported by a symbol for the kind of
  the obstacle, and warned of once. -/
  failure : ∀ action target error, request.subject? = some (action, target) →
    request.failure? (host.answer request s.host).1 = some error →
      (∃ e, run.1 = .error e ∧
        (error.kind = .notFound → e.condition.symbol = "file-missing") ∧
        (error.kind = .permissionDenied → e.condition.symbol = "permission-denied") ∧
        (error.kind ≠ .notFound → error.kind ≠ .permissionDenied →
          e.condition.symbol = "file-error") ∧
        e.condition.data = [.text action, .text error.message, .text target]) ∧
      run.2.warnings = s.warnings ++ [caller ++ ": " ++ target ++ ": " ++ error.message]

namespace Makes

variable {host : Host σ} {caller : String} {request : Request} {s : Session σ}

/-- The answer tells of no obstacle, and a value comes of it. -/
theorem of_value (h : request.failure? (host.answer request s.host).1 = none) (v : Value)
    (warnings : List String) :
    Makes host caller request s (.ok v, (s.asked host request).warned warnings) where
  session := ⟨warnings, by rw [Request.further_of_failure?_eq_none h]; rfl⟩
  notRefused _ he := by cases he
  failure _ _ _ _ herror := by
    rw [h] at herror
    cases herror

/-- A value comes of the answer without a warning. -/
theorem of_value_silent (h : request.failure? (host.answer request s.host).1 = none) (v : Value) :
    Makes host caller request s (.ok v, s.asked host request) := by
  rw [← (s.asked host request).warned_nil]
  exact of_value h v []

/-- The host could not change or start something. -/
theorem of_failure {action : Action} {target : String} {error : HostError}
    (hsubject : request.subject? = some (action.text, target))
    (h : request.failure? (host.answer request s.host).1 = some error) :
    Makes host caller request s (.error (.hostFailure action error target),
      (s.asked host request).warned [caller ++ ": " ++ target ++ ": " ++ error.message]) where
  session := ⟨_, by rw [Request.further_of_subject? hsubject]; rfl⟩
  notRefused e he := by
    obtain rfl := Except.error.inj he
    exact Signal.not_isRefusal_hostFailure action error target
  failure action' target' error' hsubject' herror := by
    rw [hsubject] at hsubject'
    rw [h] at herror
    cases hsubject'
    cases herror
    refine ⟨⟨_, rfl, ?_, ?_, HostError.Kind.symbol_of_ne, rfl⟩, rfl⟩
    · intro hmissing
      exact (congrArg HostError.Kind.symbol hmissing).trans HostError.Kind.symbol_notFound
    · intro hdenied
      exact (congrArg HostError.Kind.symbol hdenied).trans HostError.Kind.symbol_permissionDenied

end Makes

theorem makes_changeDir (host : Host σ) (path : String) (s : Session σ) :
    Makes host "cd" (.setCurrentDir path) s (changeDir host path s) := by
  unfold changeDir
  rw [ask_bind_apply]
  cases h : (host.answer (.setCurrentDir path) s.host).1 with
  | ok u => exact .of_value_silent (by rw [h]; rfl) .void
  | error e => exact .of_failure rfl (by rw [h]; rfl)

/-- Where the working directory cannot be read, the hint is asked for. -/
theorem makes_workingDir (host : Host σ) (s : Session σ) :
    Makes host "pwd" .currentDir s (workingDir host s) := by
  unfold workingDir
  rw [ask_bind_apply]
  cases h : (host.answer .currentDir s.host).1 with
  | ok path => exact .of_value_silent (by rw [h]; rfl) (.text path.text)
  | error e =>
    refine ⟨⟨["pwd: could not get current directory: " ++ e.message], ?_⟩, fun _ he => ?_,
      fun _ _ _ hsubject => ?_⟩
    · rw [h]
      rfl
    · cases he
    · cases hsubject

theorem makes_leave (host : Host σ) (code : Int64) (s : Session σ) :
    Makes host "exit" (.exit (lowByte code)) s (leave host code s) :=
  .of_value_silent rfl .void

theorem makes_timeOfDay (host : Host σ) (s : Session σ) :
    Makes host "now" .unixTime s (timeOfDay host s) :=
  .of_value_silent rfl (.int (host.answer .unixTime s.host).1)

theorem makes_runCommand (host : Host σ) (argv : ArgVector) (s : Session σ) :
    Makes host "sys" (.runProcess argv) s (runCommand host argv s) := by
  unfold runCommand
  rw [ask_bind_apply]
  cases h : (host.answer (.runProcess argv) s.host).1 with
  | error e =>
    refine .of_failure ?_ (by rw [h]; rfl)
    rw [argv.programName_eq_headD]
    rfl
  | ok outcome =>
    have hnone : (Request.runProcess argv).failure? (host.answer (.runProcess argv) s.host).1 =
        none := by rw [h]; rfl
    cases outcome with
    | exited status => exact .of_value_silent hnone _
    | signaled signal => exact .of_value hnone _ _

/-! ## Validation -/

/-- The warnings of the arguments that a primitive passes over. -/
def passedOver : Primitive → List Value → List String
  | sys, args => skipWarnings 0 args
  | _, _ => []

theorem warned_passedOver {p : Primitive} (hp : p ≠ sys) (args : List Value) (s : Session σ) :
    s.warned (p.passedOver args) = s := by
  cases p with
  | sys => exact absurd rfl hp
  | _ => exact s.warned_nil

theorem makes_of_admits (i : Interpreter σ) {p : Primitive} {args : List Value}
    (h : p.Admits i.settings.strictSysArgs args) :
    ∃ request, p.Operation args request ∧ ∀ s,
      Makes i.host p.descriptor.name request (s.warned (p.passedOver args)) (p.apply i args s) := by
  have harity := h.1
  cases p with
  | cd =>
    obtain ⟨v, rfl⟩ := List.length_eq_one_iff.mp (Arity.accepts_exact_iff.mp harity)
    obtain ⟨path, rfl⟩ := Value.tag_eq_text_iff.mp (h.2 v List.mem_cons_self)
    refine ⟨_, .cd path, fun s => ?_⟩
    rw [warned_passedOver (by simp)]
    exact makes_changeDir i.host path s
  | pwd =>
    obtain rfl := List.length_eq_zero_iff.mp (Arity.accepts_exact_iff.mp harity)
    refine ⟨_, .pwd, fun s => ?_⟩
    rw [warned_passedOver (by simp)]
    exact makes_workingDir i.host s
  | exit =>
    obtain ⟨v, rfl⟩ := List.length_eq_one_iff.mp (Arity.accepts_exact_iff.mp harity)
    obtain ⟨code, rfl⟩ := Value.tag_eq_int_iff.mp (h.2 v List.mem_cons_self)
    refine ⟨_, .exit (toNat_lowByte code), fun s => ?_⟩
    rw [warned_passedOver (by simp)]
    exact makes_leave i.host code s
  | now =>
    obtain rfl := List.length_eq_zero_iff.mp (Arity.accepts_exact_iff.mp harity)
    refine ⟨_, .now, fun s => ?_⟩
    rw [warned_passedOver (by simp)]
    exact makes_timeOfDay i.host s
  | sys =>
    obtain ⟨argv, hwords, hsystem⟩ := system_of_admits i h
    refine ⟨_, .sys hwords, fun s => ?_⟩
    show Makes i.host "sys" _ _ (system i args s)
    rw [hsystem s]
    exact makes_runCommand i.host argv _

theorem refused_of_not_admits (i : Interpreter σ) {p : Primitive} {args : List Value}
    (h : ¬ p.Admits i.settings.strictSysArgs args) (s : Session σ) :
    ∃ e ws, e.IsRefusal ∧ p.apply i args s = (.error e, s.warned ws) := by
  -- A refusal that is not of a command comes without warnings.
  have hfail : ∀ e : Signal, e.IsRefusal → p.apply i args = fail e →
      ∃ e ws, e.IsRefusal ∧ p.apply i args s = (.error e, s.warned ws) := by
    intro e he happly
    refine ⟨e, [], he, ?_⟩
    rw [happly, Session.warned_nil]
    rfl
  cases harity : p.descriptor.arity.accepts args.length with
  | false =>
    exact hfail _ (by simp [Signal.IsRefusal, Signal.symbol]) (apply_of_not_accepts i harity)
  | true =>
    cases p with
    | cd =>
      obtain ⟨v, rfl⟩ := List.length_eq_one_iff.mp (Arity.accepts_exact_iff.mp harity)
      have hv : v.tag ≠ .text := fun hv => h ⟨harity, by simpa using hv⟩
      exact hfail _ (by simp [Signal.IsRefusal, Signal.symbol]) (apply_cd_of_ne i hv)
    | exit =>
      obtain ⟨v, rfl⟩ := List.length_eq_one_iff.mp (Arity.accepts_exact_iff.mp harity)
      have hv : v.tag ≠ .int := fun hv => h ⟨harity, by simpa using hv⟩
      exact hfail _ (by simp [Signal.IsRefusal, Signal.symbol]) (apply_exit_of_ne i hv)
    | pwd => exact absurd ⟨harity, trivial⟩ h
    | now => exact absurd ⟨harity, trivial⟩ h
    | sys => exact system_of_not_admits i h s

/-- **Arguments are validated before anything is done, and then one thing is done.** If a primitive
does not admit its arguments, it refuses them, and the session is as it was but for warnings.
Otherwise it makes the request that the arguments stand for, once. -/
theorem apply_validated (i : Interpreter σ) (p : Primitive) (args : List Value) (s : Session σ) :
    (¬ p.Admits i.settings.strictSysArgs args →
      ∃ e ws, e.IsRefusal ∧ p.apply i args s = (.error e, s.warned ws)) ∧
    (p.Admits i.settings.strictSysArgs args →
      ∃ request, p.Operation args request ∧
        Makes i.host p.descriptor.name request (s.warned (p.passedOver args))
          (p.apply i args s)) := by
  refine ⟨fun h => refused_of_not_admits i h s, fun h => ?_⟩
  obtain ⟨request, hoperation, hmakes⟩ := makes_of_admits i h
  exact ⟨request, hoperation, hmakes s⟩

end Primitive

end HostScript
