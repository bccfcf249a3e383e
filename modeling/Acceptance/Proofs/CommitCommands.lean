import Acceptance.Proofs.Changes
import Acceptance.Proofs.Checking
import Acceptance.Proofs.Committing

/-! # The commands of a commit

Four commands make a commit. Each is called once the one before it ended with zero, and the last one
only if there is something to commit. The first one that does not let the commit go on says why
there is none. -/

namespace Acceptance

variable {outside : Outside} {place : Place} {m m' : Machine} {data : Entries}
  {entries : List Entries} {id given : Option Text} {root message : Text} {answer : Nat → Finished}
  {k : Nat} {fault : Fault}

/-- There are no code points but blanks in the output. -/
def Finished.IsBlank (f : Finished) : Prop :=
  ∃ t, Task.textOf f.output = .ok t ∧ Text.isBlank t = true

/-- What was loaded is loaded again as long as the project file is as it was. -/
theorem Project.load_of_undisturbed {project : Project}
    (hload : load.run outside m = (.ok project, m)) (hplace : m.KeepsProjectAt place)
    (h : m.Undisturbed place m') : load.run outside m' = (.ok project, m') := by
  obtain ⟨-, p, content, executable, hproject, hcontent⟩ := load_eq_ok hload
  obtain rfl : Place.ofPath m.directory p = place := hplace outside p hproject.path
  have hdirectory : m'.directory = m.directory := congrArg Setting.directory h.setting
  have hproject' : m'.HasProject outside p content executable := by
    have hpath := (Layout.asks_featuresFile.answer_eq h.setting).trans hproject.path
    refine ⟨hpath, hproject.fit, ?_, ?_⟩
    · rw [hdirectory]
      exact FileTree.locate_of_way (fun q hq => h.way ⟨outside, p, hproject.path, hq⟩)
        hproject.located
    · rw [hdirectory]
      exact h.file hproject.file
  rw [run_load_of_file hproject', hcontent]

namespace Commit

/-! ## The message -/

/-- The message of a commit: the given one unless it is empty, or what the first feature with the id
is described as unless the id is empty. -/
def messageOf (id given : Option Text) (entries : List Entries) : Text :=
  match given, id with
  | some (c :: rest), _ => c :: rest
  | _, some (c :: rest) =>
    match entries.find? fun e => Entry.hasId e (.text (c :: rest)) with
    | some e => "feat: " ++ describe e
    | none => standardMessage
  | _, _ => standardMessage

theorem run_message (hload : Project.load.run outside m = (.ok ⟨data, entries.map .object⟩, m)) :
    (Commit.message id given).run outside m = (.ok (messageOf id given entries), m) := by
  rcases given with _ | _ | ⟨c, rest⟩ <;> rcases id with _ | _ | ⟨d, more⟩ <;> try rfl
  -- No message is given, but an id is.
  all_goals
    unfold Commit.message messageOf
    rw [Task.run_bind_ok hload]
    dsimp only
    rw [descriptionOf_eq]
    cases entries.find? fun e => Entry.hasId e (.text (d :: more)) <;> rfl

/-! ## The commands -/

/-- The commands of a commit, in their order. -/
def commands (message : Text) : List (List Text) :=
  [["git", "rev-parse", "--is-inside-work-tree"], ["git", "add", "-A"],
    ["git", "status", "--porcelain"], ["git", "commit", "-m", message]]

/-- What the commands of a commit are answered, each once those before it were called. -/
def answers (outside : Outside) (m : Machine) (root message : Text) : Nat → Finished :=
  outside.answerTo m.calls (some root) (commands message)

/-- The answer to the command of this number lets the commit go on. -/
structure Passes (answer : Nat → Finished) (k : Nat) : Prop where
  code : (answer k).code = 0
  shown : k = 2 → ¬ (answer k).IsBlank

/-- Why the command of this number does not let the commit go on. -/
inductive Refuses (root message : Text) (answer : Nat → Finished) : Nat → Fault → Prop where
  | notARepository (hcode : (answer 0).code ≠ 0) :
      Refuses root message answer 0 (.notARepository root)
  | nothingToCommit (hcode : (answer 2).code = 0) (hblank : (answer 2).IsBlank) :
      Refuses root message answer 2 .nothingToCommit
  | failed {k : Nat} {argv : List Text} {output errors : Text} (hk : k ≠ 0)
      (hargv : (commands message)[k]? = some argv) (hcode : (answer k).code ≠ 0)
      (houtput : Task.textOf (answer k).output = .ok output)
      (herrors : Task.textOf (answer k).errors = .ok errors) :
      Refuses root message answer k (.processFailed argv (answer k).code output errors)

theorem Refuses.not_passes (h : Refuses root message answer k fault) : ¬ Passes answer k := by
  intro hpasses
  cases h with
  | notARepository hcode => exact hcode hpasses.code
  | nothingToCommit _ hblank => exact hpasses.shown rfl hblank
  | failed _ _ hcode => exact hcode hpasses.code

/-! ## One after the other -/

/-- So many of the commands were called, and the project file is as it was. -/
structure Called (place : Place) (m : Machine) (root message : Text) (k : Nat) (m' : Machine) :
    Prop where
  calls : m'.calls = m.calls ++ .ofChecks (some root) ((commands message).take k)
  minded : m.Minded place m'

theorem hasZero_commands (hzero : Task.hasZero [message] = false) :
    ∀ argv ∈ commands message, Task.hasZero argv = false := by
  have hmessage : message.any (·.val = 0) = false := by simpa [Task.hasZero] using hzero
  simp only [commands, List.forall_mem_cons, Task.hasZero, List.any_cons, List.any_nil, hmessage]
  decide

section

variable (hsteady : Machine.Steady outside (m.Minded place))
  (hzero : Task.hasZero [message] = false)
include hsteady hzero

/-- The next command is called, and it ends with zero or it does not. -/
theorem run_command {argv : List Text} (hargv : (commands message)[k]? = some argv)
    (htext : (answers outside m root message k).IsText) {m₁ : Machine}
    (h : Called place m root message k m₁) :
    ∃ m₂, Called place m root message (k + 1) m₂ ∧
      (((answers outside m root message k).code = 0 ∧ ∃ o,
        Task.textOf (answers outside m root message k).output = .ok o.output ∧
        (Task.runChecked argv (some root)).run outside m₁ = (.ok o, m₂)) ∨
      ((answers outside m root message k).code ≠ 0 ∧ ∃ output errors,
        Task.textOf (answers outside m root message k).output = .ok output ∧
        Task.textOf (answers outside m root message k).errors = .ok errors ∧
        (Task.runChecked argv (some root)).run outside m₁ =
          (.error (.processFailed argv (answers outside m root message k).code output errors),
            m₂))) := by
  have hplain := hasZero_commands hzero argv (List.mem_of_getElem? hargv)
  obtain ⟨m₂, effect, hrun, hcalls, hdoes, rfl⟩ := Task.run_next outside hargv hplain h.calls
  refine ⟨_, ⟨hcalls, hsteady.after hdoes m₁ _ h.minded⟩, ?_⟩
  by_cases hcode : (answers outside m root message k).code = 0
  · obtain ⟨o, hverdict, houtput⟩ :=
      Finished.verdict_of_succeeds argv { htext with code := hcode }
    exact .inl ⟨hcode, o, houtput, hverdict ▸ hrun⟩
  · obtain ⟨output, errors, houtput, herrors, hverdict⟩ :=
      Finished.verdict_of_code argv htext hcode
    exact .inr ⟨hcode, output, errors, houtput, herrors, hverdict ▸ hrun⟩

theorem run_requireRepository (htext : (answers outside m root message 0).IsText) :
    ∃ m₁, Called place m root message 1 m₁ ∧
      (((answers outside m root message 0).code = 0 ∧
        (requireRepository root).run outside m = (.ok (), m₁)) ∨
      ((answers outside m root message 0).code ≠ 0 ∧
        (requireRepository root).run outside m = (.error (.notARepository root), m₁))) := by
  have hstart : Called place m root message 0 m :=
    ⟨by simp [History.ofChecks], refl_of (Machine.Undisturbed place) m, rfl⟩
  unfold requireRepository
  rw [Task.run_attempt_bind]
  obtain ⟨m₁, h₁, ⟨hcode, o, -, hrun⟩ | ⟨hcode, output, errors, -, -, hrun⟩⟩ :=
    run_command hsteady hzero rfl htext hstart <;> rw [hrun]
  · exact ⟨m₁, h₁, .inl ⟨hcode, rfl⟩⟩
  · exact ⟨m₁, h₁, .inr ⟨hcode, rfl⟩⟩

/-- What comes of a commit once its tool was found: every command passes, or one does not. -/
theorem run_commands (hload : Project.load.run outside m = (.ok ⟨data, entries.map .object⟩, m))
    (hplace : m.KeepsProjectAt place) (hinstalled : Text.of "git" ∈ m.installed) {p : Path}
    (hroot : (Layout.projectDirectory.run outside m).1 = .ok p)
    (hmessage : messageOf id given entries = message)
    (htext : ∀ k < 4, (answers outside m p.toText message k).IsText) :
    (∃ metadata m', (run id given).run outside m = (.ok ⟨message, metadata⟩, m') ∧
      Called place m p.toText message 4 m' ∧
      ∀ k < 4, Passes (answers outside m p.toText message) k) ∨
    ∃ k < 4, ∃ fault m', (run id given).run outside m = (.error fault, m') ∧
      Called place m p.toText message (k + 1) m' ∧
      (∀ j < k, Passes (answers outside m p.toText message) j) ∧
      Refuses p.toText message (answers outside m p.toText message) k fault := by
  have hproject : Layout.projectDirectory.run outside m = (.ok p, m) := by
    rw [Layout.asks_projectDirectory.run_self, hroot]
  obtain ⟨path, htool⟩ := Task.run_requireTool_of_mem outside hinstalled
  unfold run
  rw [Task.run_bind_ok hload, Task.run_bind_ok hproject, Task.run_bind_ok htool]
  obtain ⟨m₁, h₁, ⟨hcode, hrepository⟩ | ⟨hcode, hrepository⟩⟩ :=
    run_requireRepository hsteady hzero (htext 0 (by decide))
  swap
  · exact .inr ⟨0, by decide, _, m₁, Task.run_bind_error hrepository _, h₁, by simp,
      .notARepository hcode⟩
  have hbefore₁ := Nat.forall_lt_succ_right.mpr
    ⟨by simp, (⟨hcode, by simp⟩ : Passes (answers outside m p.toText message) 0)⟩
  -- The project file is as it was, so the message is that of the features that were loaded.
  have hload₁ := Project.load_of_undisturbed hload hplace h₁.minded.undisturbed
  rw [Task.run_bind_ok hrepository, Task.run_bind_ok (run_message hload₁), hmessage]
  obtain ⟨m₂, h₂, ⟨hcode, o, -, hadd⟩ | ⟨hcode, output, errors, houtput, herrors, hadd⟩⟩ :=
    run_command hsteady hzero rfl (htext 1 (by decide)) h₁
  swap
  · exact .inr ⟨1, by decide, _, m₂, Task.run_bind_error hadd _, h₂, hbefore₁,
      .failed (by decide) rfl hcode houtput herrors⟩
  have hbefore₂ := Nat.forall_lt_succ_right.mpr
    ⟨hbefore₁, (⟨hcode, by simp⟩ : Passes (answers outside m p.toText message) 1)⟩
  rw [Task.run_bind_ok hadd]
  obtain ⟨m₃, h₃, ⟨hcode, o, hshown, hstatus⟩ |
      ⟨hcode, output, errors, houtput, herrors, hstatus⟩⟩ :=
    run_command hsteady hzero rfl (htext 2 (by decide)) h₂
  swap
  · exact .inr ⟨2, by decide, _, m₃, Task.run_bind_error hstatus _, h₃, hbefore₂,
      .failed (by decide) rfl hcode houtput herrors⟩
  rw [Task.run_bind_ok hstatus]
  split
  next hblank =>
    exact .inr ⟨2, by decide, _, m₃, rfl, h₃, hbefore₂, .nothingToCommit hcode ⟨_, hshown, hblank⟩⟩
  next hblank =>
  have hshows : ¬ (answers outside m p.toText message 2).IsBlank := by
    rintro ⟨t, ht, hall⟩
    rw [Except.ok.inj (hshown.symm.trans ht)] at hblank
    exact hblank hall
  have hbefore₃ := Nat.forall_lt_succ_right.mpr
    ⟨hbefore₂, (⟨hcode, fun _ => hshows⟩ : Passes (answers outside m p.toText message) 2)⟩
  obtain ⟨m₄, h₄, ⟨hcode, o, -, hcommit⟩ |
      ⟨hcode, output, errors, houtput, herrors, hcommit⟩⟩ :=
    run_command hsteady hzero rfl (htext 3 (by decide)) h₃
  · exact .inl ⟨_, m₄, Task.run_bind_ok hcommit _, h₄,
      Nat.forall_lt_succ_right.mpr ⟨hbefore₃, hcode, by simp⟩⟩
  · exact .inr ⟨3, by decide, _, m₄, Task.run_bind_error hcommit _, h₄, hbefore₃,
      .failed (by decide) rfl hcode houtput herrors⟩

end

/-! ## Results -/

theorem passes_of_code (hcode : (answer k).code = 0) (hk : k ≠ 2) : Passes answer k :=
  ⟨hcode, fun h => absurd h hk⟩

namespace Refuses

variable (hbefore : ∀ j < k, Passes answer j) (h : Refuses root message answer k fault)
include hbefore h

/-- There is only one command at which a commit ends. -/
theorem eq_of_not_passes {i : Nat} (hbefore' : ∀ j < i, Passes answer j) (hi : ¬ Passes answer i) :
    i = k := by
  rcases Nat.lt_trichotomy i k with hlt | heq | hlt
  · exact absurd (hbefore i hlt) hi
  · exact heq
  · exact absurd (hbefore' k hlt) h.not_passes

theorem eq_notARepository : fault = .notARepository root ↔ (answer 0).code ≠ 0 := by
  constructor
  · rintro rfl
    cases h with
    | notARepository hcode => exact hcode
  · intro hcode
    obtain rfl : 0 = k := eq_of_not_passes hbefore h (by simp) fun hpasses => hcode hpasses.code
    cases h with
    | notARepository => rfl
    | failed hk => exact absurd rfl hk

theorem eq_nothingToCommit : fault = .nothingToCommit ↔
    (∀ j < 3, (answer j).code = 0) ∧ (answer 2).IsBlank := by
  constructor
  · rintro rfl
    cases h with
    | nothingToCommit hcode hblank =>
      exact ⟨Nat.forall_lt_succ_right.mpr ⟨fun j hj => (hbefore j hj).code, hcode⟩, hblank⟩
  · rintro ⟨hcodes, hblank⟩
    obtain rfl : 2 = k := eq_of_not_passes hbefore h
      (fun j hj => passes_of_code (hcodes j (by omega)) (by omega))
      fun hpasses => hpasses.shown rfl hblank
    cases h with
    | nothingToCommit => rfl
    | failed _ _ hcode => exact absurd (hcodes 2 (by decide)) hcode

theorem eq_processFailed (argv : List Text) (code : Int) (output errors : Text) :
    fault = .processFailed argv code output errors ↔
      ∃ i ≠ 0, (∀ j < i, Passes answer j) ∧ (commands message)[i]? = some argv ∧
        (answer i).code ≠ 0 ∧ (answer i).code = code ∧
        Task.textOf (answer i).output = .ok output ∧
        Task.textOf (answer i).errors = .ok errors := by
  constructor
  · rintro rfl
    cases h with
    | failed hk hargv hcode houtput herrors =>
      exact ⟨k, hk, hbefore, hargv, hcode, rfl, houtput, herrors⟩
  · rintro ⟨i, hi, hbefore', hargv, hcode, rfl, houtput, herrors⟩
    obtain rfl : i = k := eq_of_not_passes hbefore h hbefore' fun hpasses => hcode hpasses.code
    cases h with
    | notARepository => exact absurd rfl hi
    | nothingToCommit hzero => exact absurd hzero hcode
    | failed _ hargv' _ houtput' herrors' =>
      rw [Option.some.inj (hargv.symm.trans hargv'), Except.ok.inj (houtput.symm.trans houtput'),
        Except.ok.inj (herrors.symm.trans herrors')]

end Refuses

/-- How a commit ends whose tool was found. The commands that are called are the first ones, up to
the first that does not let the commit go on, and this one decides what the commit answers. -/
structure Ends (outside : Outside) (place : Place) (m : Machine) (root message : Text)
    (result : Except Fault Result) (m' : Machine) : Prop where
  calls : ∃ n ≤ 4, m'.calls = m.calls ++ .ofChecks (some root) ((commands message).take n) ∧
    ∀ k < 4, k < n ↔ ∀ j < k, Passes (answers outside m root message) j
  returns : (∃ r, result = .ok r) ↔ ∀ k < 4, Passes (answers outside m root message) k
  committed : ∀ r, result = .ok r → r.message = message
  notARepository : result = .error (.notARepository root) ↔
    (answers outside m root message 0).code ≠ 0
  nothingToCommit : result = .error .nothingToCommit ↔
    (∀ k < 3, (answers outside m root message k).code = 0) ∧
      (answers outside m root message 2).IsBlank
  processFailed : ∀ argv code output errors,
    result = .error (.processFailed argv code output errors) ↔
      ∃ k ≠ 0, (∀ j < k, Passes (answers outside m root message) j) ∧
        (commands message)[k]? = some argv ∧ (answers outside m root message k).code ≠ 0 ∧
        (answers outside m root message k).code = code ∧
        Task.textOf (answers outside m root message k).output = .ok output ∧
        Task.textOf (answers outside m root message k).errors = .ok errors
  file : m'.files.get? place = m.files.get? place

theorem ends_of_passes {metadata : Value} (hcalled : Called place m root message 4 m')
    (hfile : m'.files.get? place = m.files.get? place)
    (h : ∀ k < 4, Passes (answers outside m root message) k) :
    Ends outside place m root message (.ok ⟨message, metadata⟩) m' where
  calls := ⟨4, le_rfl, hcalled.calls, fun _ hk =>
    iff_of_true hk fun j hj => h j (Nat.lt_trans hj hk)⟩
  returns := iff_of_true ⟨_, rfl⟩ h
  committed _ hr := Except.ok.inj hr ▸ rfl
  notARepository := iff_of_false (by simp) fun hcode => hcode (h 0 (by decide)).code
  nothingToCommit := iff_of_false (by simp) fun hblank => (h 2 (by decide)).shown rfl hblank.2
  processFailed argv code output errors := by
    refine iff_of_false (by simp) ?_
    rintro ⟨k, -, -, hargv, hcode, -⟩
    exact hcode (h k (List.getElem?_eq_some_iff.mp hargv).1).code
  file := hfile

theorem ends_of_refuses (hk : k < 4) (hcalled : Called place m root message (k + 1) m')
    (hfile : m'.files.get? place = m.files.get? place)
    (hbefore : ∀ j < k, Passes (answers outside m root message) j)
    (h : Refuses root message (answers outside m root message) k fault) :
    Ends outside place m root message (.error fault) m' where
  calls := by
    refine ⟨k + 1, hk, hcalled.calls, fun i _ =>
      ⟨fun hi j hj => hbefore j (by omega), fun hpasses => ?_⟩⟩
    by_contra hi
    exact h.not_passes (hpasses k (by omega))
  returns := iff_of_false (by simp) fun hpasses => h.not_passes (hpasses k hk)
  committed _ hr := absurd hr (by simp)
  notARepository := by
    rw [Except.error.injEq]
    exact h.eq_notARepository hbefore
  nothingToCommit := by
    rw [Except.error.injEq]
    exact h.eq_nothingToCommit hbefore
  processFailed argv code output errors := by
    rw [Except.error.injEq]
    exact h.eq_processFailed hbefore argv code output errors
  file := hfile

end Commit

/-! ## A shop with a change to commit -/

namespace Shop

/-- Other programs that always print a letter. -/
def printing : Outside :=
  { idle with check _ _ := { answer := ⟨0, [77], []⟩, effect := fun _ s => s } }

theorem sparesProject_printing (m : Machine) (place : Place) :
    printing.SparesProject m place := by
  refine Outside.sparesProject_of_still (fun h directory s => ?_) m place
  rcases h with ⟨history, l⟩ | ⟨history, argv⟩ | ⟨history, call⟩ <;> rfl

def namelessText : Text :=
  "\x7b\"features\": [\x7b\"id\": \"\", \"description\": \"x\"\x7d, " ++
    "\x7b\"id\": \"a\", \"description\": \"y\"\x7d]\x7d"

/-- Two features, and the id of the first is empty. -/
def nameless : List Entries :=
  [[("id", .text []), ("description", .text "x")], [("id", .text "a"), ("description", .text "y")]]

/-- The shop with these features, under version control. -/
def versioned : Machine := { withFile namelessText with installed := ["git"] }

theorem load_versioned : (Project.load.run printing versioned).1 =
    .ok ⟨[("features", .list (nameless.map .object))], nameless.map .object⟩ := by
  have hproject : versioned.HasProject printing projectPath (namelessText.flatMap Utf8.bytesOf)
      false := ⟨rfl, rfl, rfl, rfl⟩
  have hmeans : Json.Means (namelessText.flatMap Utf8.bytesOf)
      (.object [("features", .list (nameless.map .object))]) := ⟨namelessText, by cbv, by cbv⟩
  have hcontent : Project.ofContent projectPath (namelessText.flatMap Utf8.bytesOf) =
      .ok ⟨[("features", .list (nameless.map .object))], nameless.map .object⟩ :=
    Project.ofContent_eq_ok.mpr ⟨hmeans, rfl⟩
  rw [Project.run_load_of_file hproject, hcontent]

end Shop

end Acceptance
