import Acceptance.Proofs.Machine

/-! # Programs that are waited for

A program that is waited for gives its outputs if they are texts and it ends with zero. Where some
are called one after the other, each once the one before it succeeded, the calls that are made are
the first of them, and the last of these decides what comes of it all. -/

namespace Acceptance

variable {outside : Outside} {m : Machine} {history : History} {directory : Option Text}
  {argv : List Text} {commands : List (List Text)}

/-! ## One program -/

/-- The text of an output, its line ends as line feeds. -/
def Task.textOf (bytes : List UInt8) : Except Fault Text :=
  match Utf8.decode bytes with
  | .ok t => .ok (Text.withLineFeeds t)
  | .error problem => .error (.invalid (.undecodable problem))

namespace Finished

variable {f : Finished}

/-- Both outputs are UTF-8. -/
structure IsText (f : Finished) : Prop where
  output : ∃ t, Utf8.decode f.output = .ok t
  errors : ∃ t, Utf8.decode f.errors = .ok t

/-- The program ended with zero, and both outputs are UTF-8. -/
structure Succeeds (f : Finished) : Prop extends f.IsText where
  code : f.code = 0

/-- What comes of a command that ended like this and must succeed. -/
def verdict (argv : List Text) (f : Finished) : Except Fault Task.Output := do
  let output ← Task.textOf f.output
  let errors ← Task.textOf f.errors
  if f.code = 0 then .ok { output, errors, code := 0 }
  else .error (.processFailed argv f.code output errors)

theorem verdict_of_succeeds (argv : List Text) (h : f.Succeeds) :
    ∃ o, f.verdict argv = .ok o ∧ Task.textOf f.output = .ok o.output := by
  obtain ⟨⟨⟨output, houtput⟩, errors, herrors⟩, hcode⟩ := h
  unfold verdict Task.textOf
  rw [houtput, herrors]
  dsimp only [bind, Except.bind]
  rw [if_pos hcode]
  exact ⟨_, rfl, rfl⟩

theorem verdict_of_code (argv : List Text) (h : f.IsText) (hcode : f.code ≠ 0) :
    ∃ output errors, Task.textOf f.output = .ok output ∧ Task.textOf f.errors = .ok errors ∧
      f.verdict argv = .error (.processFailed argv f.code output errors) := by
  obtain ⟨⟨output, houtput⟩, errors, herrors⟩ := h
  unfold verdict Task.textOf
  rw [houtput, herrors]
  dsimp only [bind, Except.bind]
  rw [if_neg hcode]
  exact ⟨_, _, rfl, rfl, rfl⟩

theorem verdict_of_not_isText (argv : List Text) (h : ¬ f.IsText) :
    ∃ problem, f.verdict argv = .error (.invalid (.undecodable problem)) := by
  unfold verdict Task.textOf
  cases houtput : Utf8.decode f.output with
  | error problem => exact ⟨problem, rfl⟩
  | ok output =>
    cases herrors : Utf8.decode f.errors with
    | error problem => exact ⟨problem, rfl⟩
    | ok errors => exact absurd ⟨⟨_, houtput⟩, _, herrors⟩ h

theorem succeeds_of_verdict {o : Task.Output} (h : f.verdict argv = .ok o) : f.Succeeds := by
  by_cases htext : f.IsText
  · by_cases hcode : f.code = 0
    · exact { htext with code := hcode }
    · obtain ⟨output, errors, -, -, hverdict⟩ := verdict_of_code argv htext hcode
      rw [hverdict] at h
      exact absurd h (by simp)
  · obtain ⟨problem, hverdict⟩ := verdict_of_not_isText argv htext
    rw [hverdict] at h
    exact absurd h (by simp)

end Finished

/-- A command without a zero character is called, and its answer decides what comes of it. -/
theorem Task.run_runChecked (outside : Outside) (m : Machine) (hzero : hasZero argv = false)
    (directory : Option Text) :
    (runChecked argv directory).run outside m =
      ((outside.check m.calls argv).answer.verdict argv,
        m.after (.check argv directory) (outside.check m.calls argv).effect) := by
  have htext : ∀ bytes, outputText bytes = ofExcept (textOf bytes) := by
    intro bytes
    unfold outputText textOf
    cases Utf8.decode bytes <;> rfl
  unfold runChecked Finished.verdict
  rw [if_neg (by simp [hzero]), run_check_bind, htext, htext]
  cases textOf (outside.check m.calls argv).answer.output with
  | error fault => rfl
  | ok output =>
    cases textOf (outside.check m.calls argv).answer.errors with
    | error fault => rfl
    | ok errors =>
      rw [run_ofExcept_ok_bind, run_ofExcept_ok_bind]
      dsimp only [bind, Except.bind]
      split <;> rfl

/-- A tool that is installed is found. -/
theorem Task.run_requireTool_of_mem (outside : Outside) {name : Text} (h : name ∈ m.installed) :
    ∃ path, (requireTool name).run outside m = (.ok path, m) := by
  unfold requireTool findTool
  rw [run_read_bind, if_pos (by simpa using h)]
  exact ⟨_, rfl⟩

theorem Task.run_requireTool_of_not_mem (outside : Outside) {name : Text}
    (h : name ∉ m.installed) :
    (requireTool name).run outside m = (.error (.toolMissing name), m) := by
  unfold requireTool findTool
  rw [run_read_bind, if_neg (by simpa using h)]
  rfl

/-! ## One after the other -/

/-- The calls of some commands. -/
def History.ofChecks (directory : Option Text) (commands : List (List Text)) : History :=
  commands.map fun argv => .check argv directory

/-- What the command of this number is answered once those before it were called. -/
def Outside.answerTo (outside : Outside) (history : History) (directory : Option Text)
    (commands : List (List Text)) (k : Nat) : Finished :=
  (outside.check (history ++ .ofChecks directory (commands.take k)) (commands.getD k [])).answer

@[simp] theorem Outside.answerTo_cons_zero :
    outside.answerTo history directory (argv :: commands) 0 =
      (outside.check history argv).answer := by
  simp [answerTo, History.ofChecks]

@[simp] theorem Outside.answerTo_cons_succ (k : Nat) :
    outside.answerTo history directory (argv :: commands) (k + 1) =
      outside.answerTo (history ++ [.check argv directory]) directory commands k := by
  simp [answerTo, History.ofChecks]

/-- Once the commands before it were called, the next one is called and answered. -/
theorem Task.run_next (outside : Outside) {m₁ : Machine} {k : Nat}
    (hargv : commands[k]? = some argv) (hzero : hasZero argv = false)
    (hcalls : m₁.calls = history ++ .ofChecks directory (commands.take k)) :
    ∃ m₂ effect, (runChecked argv directory).run outside m₁ =
        ((outside.answerTo history directory commands k).verdict argv, m₂) ∧
      m₂.calls = history ++ .ofChecks directory (commands.take (k + 1)) ∧
      Machine.Does outside effect ∧ m₂ = m₁.after (.check argv directory) effect := by
  refine ⟨_, _, ?_, ?_, .check m₁.calls argv, rfl⟩
  · rw [run_runChecked outside m₁ hzero]
    unfold Outside.answerTo
    rw [← hcalls, List.getD_eq_getElem?_getD, hargv]
    rfl
  · rw [Machine.after_calls, hcalls, List.take_add_one, hargv]
    simp [History.ofChecks]

end Acceptance
