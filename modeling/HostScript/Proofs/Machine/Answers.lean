import HostScript.Machine.Host

/-!
# What a machine's answers change

A machine is one host among others, and this is what a script can rely on there. Once the script has
finished, nothing changes any more (`answer_of_finished`). Standard output is only added to
(`appends_output`). A command leaves the script's working directory, variables and clock alone
(`runProcess_keeps`). A request to change the working directory that is refused changes nothing, and
one that is fulfilled changes only that (`setCurrentDir_cases`); the directory can then be read
(`currentDir_of_setCurrentDir`).
-/

namespace HostScript

/-- **What a path leads to is in the tree.** -/
theorem FileTree.node?_of_walk {t : FileTree} {names : List String} :
    ∀ {start place : Location} {node : FileNode},
      t.walk start names = .ok (place, node) → t.node? place = some node := by
  induction names with
  | nil =>
    intro start place node h
    unfold walk at h
    split at h
    · next hnode =>
      cases h
      exact hnode
    · cases h
  | cons part rest ih =>
    intro start place node h
    unfold walk at h
    split at h
    · exact ih h
    split at h
    · exact ih h
    split at h
    · cases h
    · exact ih h
    · exact ih h
    · next hnode =>
      split at h
      · cases h
        exact hnode
      · cases h

theorem System.node?_of_resolve {s : System} (hs : s.workingDirExists = true) {path : String}
    {place : Location} {node : FileNode} (h : s.resolve path = .ok (place, node)) :
    s.tree.node? place = some node := by
  simp only [resolve, hs, if_true] at h
  split at h
  · cases h
  split at h
  · exact FileTree.node?_of_walk h
  · exact FileTree.node?_of_walk h

namespace Machine

/-- **Once the script has finished, no request changes anything.** -/
theorem answer_of_finished {m : Machine} (h : m.finished.isSome = true) (request : Request) :
    (host.answer request m).2 = m := by
  unfold host
  dsimp only
  rw [if_pos h]

/-! ## Commands -/

/-- A command cannot be run, which changes nothing, or the process has ended. -/
theorem runProcess_cases (m : Machine) (argv : ArgVector) :
    (∃ e, m.runProcess argv = (.error e, m)) ∨
      ∃ ending, m.runProcess argv = (.ok ending.outcome, m.after ending) := by
  unfold runProcess
  split
  · exact Or.inl ⟨_, rfl⟩
  · split
    · exact Or.inl ⟨_, rfl⟩
    · exact Or.inr ⟨_, rfl⟩

/-- **A command leaves alone what belongs to the script.** -/
theorem runProcess_keeps (m : Machine) (argv : ArgVector) :
    let after := (m.runProcess argv).2
    after.workingDir = m.workingDir ∧ after.workingSerial = m.workingSerial ∧
      after.environment = m.environment ∧ after.cpuTime = m.cpuTime ∧
      after.finished = m.finished := by
  intro after
  rcases m.runProcess_cases argv with ⟨e, h⟩ | ⟨ending, h⟩
  · simp [after, h]
  · simp [after, h, Machine.after, System.after]

/-! ## The working directory -/

/-- **A directory is entered, or nothing changes.** -/
theorem setCurrentDir_cases (m : Machine) (path : String) :
    (∃ e, m.setCurrentDir path = (.error e, m)) ∨
      ∃ place serial, m.resolve path = .ok (place, .directory serial) ∧
        m.setCurrentDir path = (.ok (), { m with workingDir := place, workingSerial := serial }) := by
  unfold setCurrentDir System.enter
  split
  · exact Or.inl ⟨_, rfl⟩
  split
  · next s hs =>
    split at hs
    · next place serial hresolve =>
      cases hs
      exact Or.inr ⟨place, serial, hresolve, rfl⟩
    · cases hs
    · cases hs
  · exact Or.inl ⟨_, rfl⟩

/-- **A directory that was entered can be read**, unless the one before it was removed: out of such a
directory a path can lead back to it. -/
theorem currentDir_of_setCurrentDir {m after : Machine} {path : String}
    (hm : m.workingDirExists = true) (h : m.setCurrentDir path = (.ok (), after)) :
    after.currentDir = .ok (.ofText (System.pathOf after.workingDir)) := by
  rcases m.setCurrentDir_cases path with ⟨e, herror⟩ | ⟨place, serial, hresolve, hafter⟩
  · rw [herror] at h
    cases h
  · rw [hafter] at h
    cases h
    have hnode := System.node?_of_resolve hm hresolve
    have hexists : ({ m.toSystem with workingDir := place, workingSerial := serial } :
        System).workingDirExists = true := by
      simpa [System.workingDirExists] using hnode
    simp [currentDir, System.workingPath, hexists]

/-! ## Standard output -/

/-- **Standard output is only added to.** -/
theorem appends_output : terminal.Appends Machine.output where
  print _ _ := rfl
  complain _ _ := rfl
  answer request m := by
    by_cases hfinished : m.finished.isSome = true
    · exact exists_append_of_eq (congrArg output (answer_of_finished hfinished request))
    have hanswer : (terminal.host.answer request m).2 = (m.answer request).2 := if_neg hfinished
    rw [hanswer]
    cases request with
    | setCurrentDir path =>
      rcases m.setCurrentDir_cases path with ⟨e, h⟩ | ⟨place, serial, -, h⟩
      · exact exists_append_of_eq (by rw [answer, h])
      · exact exists_append_of_eq (by rw [answer, h])
    | runProcess argv =>
      rcases m.runProcess_cases argv with ⟨e, h⟩ | ⟨ending, h⟩
      · exact exists_append_of_eq (by rw [answer, h])
      · exact ⟨ending.output, by rw [answer, h]; rfl⟩
    | _ => exact exists_append_of_eq rfl

end Machine

end HostScript
