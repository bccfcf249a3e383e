import Acceptance.Proofs.Exports

/-! # Command lines and the project file

What a command line does to the record of a project, be it accepted or refused. An emptied project
file stays empty. -/

namespace Acceptance

variable {outside : Outside} {place : Place} {m m' : Machine} {register : List Item}

/-! ## Commands -/

namespace Command

/-- The commands that work on a project that is there. -/
def isDaily : Command → Bool
  | .status | .next => true
  | .add .. | .done .. | .commit .. | .list .. | .export .. | .test .. | .verify .. => true
  | .version .. | .doctor | .init .. | .browser .. | .review .. => false

/-- The texts that the command puts down in the project file as they are. -/
def texts : Command → List Text
  | .add description priority category steps =>
    Entry.Given.texts ⟨description, category, priority, steps⟩
  | .done _ notes => notes.toList
  | .verify _ notes _ _ => notes.toList
  | _ => []

/-- What the command puts on record when it succeeds. -/
def Changes (register register' : List Item) : Command → Prop
  | .add description priority category steps =>
    register' = register ++ [⟨⟨description, category, priority, steps⟩, 0⟩]
  | .done id _ => CommandLine.Accepted register id register'
  | .verify id _ _ _ => CommandLine.Accepted register id register'
  | _ => register' = register

end Command

namespace CommandLine

theorem settled_runCommand (houtside : outside.Spares place) (hplace : place.EndsAsProject)
    (h : m.Records place register) (hat : m.KeepsProjectAt place) (hnames : m.NamesProject)
    {c : Command} (hc : c.isDaily = true) :
    Settled m place register c.texts (c.Changes register ·) ((runCommand c).run outside m) := by
  have hspared : ∀ {t : Task Nat} (texts : List Text), t.Leaves outside (Machine.Spares place) →
      Settled m place register texts (· = register) (t.run outside m) := by
    intro t texts ht
    have hspares := ht m
    exact settled_of_records hspares.setting (h.of_spares hspares)
  cases c with
  | status => exact hspared _ spares_runStatus
  | next => exact hspared _ spares_runNext
  | add description priority category steps =>
    exact settled_add h hat description priority category steps
  | done id notes => exact settled_done h hat id notes
  | commit id message => exact hspared _ (spares_runCommit houtside id message)
  | list filter priority => exact hspared _ (spares_runList filter priority)
  | «export» output => exact settled_export h hat output _
  | test id all pending baseUrl headless => exact hspared _ (spares_runTest houtside hplace _ _ _)
  | verify id notes baseUrl headless =>
    exact settled_verify houtside hplace h hat hnames id notes _
  | version json => exact absurd hc (by simp [Command.isDaily])
  | doctor => exact absurd hc (by simp [Command.isDaily])
  | init name type directory => exact absurd hc (by simp [Command.isDaily])
  | browser args timeout => exact absurd hc (by simp [Command.isDaily])
  | review baseUrl output headless => exact absurd hc (by simp [Command.isDaily])

/-! ## Commands on an empty file -/

section

variable {α : Type} {task : Task α} {onFault : Fault → Option Envelope} {fault : Fault}

theorem spares_of_error {onResult : α → Task Envelope}
    (h : task.run outside m = (.error fault, m)) :
    m.Spares place ((answer task onResult onFault).run outside m).2 := by
  rw [run_answer_error onResult h]
  exact spares_refuse onFault fault m

theorem spares_prepared_of_error {next : α → Task Nat}
    (h : task.run outside m = (.error fault, m')) (hspares : m.Spares place m') :
    m.Spares place ((prepared task onFault next).run outside m).2 := by
  rw [run_prepared_error next h]
  exact trans_of (Machine.Spares place) hspares (spares_refuse onFault fault m')

end

theorem spares_of_emptied (houtside : outside.Spares place) (hplace : place.EndsAsProject)
    (h : m.Emptied place) (hat : m.KeepsProjectAt place) {c : Command} (hc : c.isDaily = true) :
    m.Spares place ((runCommand c).run outside m).2 := by
  obtain ⟨fault, hload⟩ := Project.load_emptied outside h hat
  cases c with
  | status => exact spares_runStatus m
  | next => exact spares_runNext m
  | add description priority category steps => exact spares_of_error (Task.run_bind_error hload _)
  | done id notes => exact spares_of_error (Task.run_bind_error hload _)
  | commit id message => exact spares_runCommit houtside id message m
  | list filter priority => exact spares_runList filter priority m
  | «export» output =>
    exact spares_of_error (Task.run_bind_error (Task.run_bind_error hload _) _)
  | test id all pending baseUrl headless => exact spares_runTest houtside hplace _ _ _ m
  | verify id notes baseUrl headless =>
    -- The options are loaded first, and then the feature is looked for in vain.
    have hoptions : m.Spares place ((Options.load { baseUrl, headless }).run outside m).2 :=
      Options.spares_load _ m
    rcases hrun : (Options.load { baseUrl, headless }).run outside m with ⟨fault | options, m₁⟩
    · rw [hrun] at hoptions
      have herror : (optionsAndFeature { baseUrl, headless } id).run outside m =
          (.error fault, m₁) := Task.run_bind_error hrun _
      exact spares_prepared_of_error herror hoptions
    · rw [hrun] at hoptions
      obtain ⟨fault, hload⟩ := Project.load_emptied outside (h.of_spares hoptions)
        (hat.of_setting hoptions.setting)
      have hfeature : (Project.feature (.text id)).run outside m₁ = (.error fault, m₁) :=
        Task.run_bind_error hload _
      have herror : (optionsAndFeature { baseUrl, headless } id).run outside m =
          (.error fault, m₁) := by
        unfold optionsAndFeature
        rw [Task.run_bind_ok hrun, Task.run_bind_error hfeature]
      exact spares_prepared_of_error herror hoptions
  | version json => exact absurd hc (by simp [Command.isDaily])
  | doctor => exact absurd hc (by simp [Command.isDaily])
  | init name type directory => exact absurd hc (by simp [Command.isDaily])
  | browser args timeout => exact absurd hc (by simp [Command.isDaily])
  | review baseUrl output headless => exact absurd hc (by simp [Command.isDaily])

/-! ## Command lines -/

/-- The command that a command line gives, if its arguments fit. -/
def command? (args : List Text) : Option Command :=
  (globalGrammar.read args).bind fun parsed =>
    match parsed.operands with
    | [] => none
    | name :: rest => (Command.Name.ofText? name).bind fun command => Command.parse? command rest

theorem onlyErrors_logError (command : Text) (given : Option Text) :
    OnlyErrors (logError? command given) := by
  intro fault e he
  cases fault <;> simp only [logError?, Option.some.injEq, reduceCtorEq] at he
  rw [← he]
  rfl

/-- A command line runs its command once the log is set up. -/
theorem run_eq (args : List Text) :
    (command? args = none ∧ (run args = pure usageCode ∨ ∃ name level,
      run args = prepared (LogLevel.configure level) (logError? name level) fun _ =>
        pure usageCode)) ∨
    ∃ c name level, command? args = some c ∧
      run args = prepared (LogLevel.configure level) (logError? name level) fun _ =>
        runCommand c := by
  unfold run command?
  cases globalGrammar.read args with
  | none => exact Or.inl ⟨rfl, Or.inl rfl⟩
  | some parsed =>
    cases hoperands : parsed.operands with
    | nil =>
      left
      simp only [Option.bind_some, hoperands, true_and]
      exact Or.inl trivial
    | cons name rest =>
      simp only [Option.bind_some, hoperands]
      cases Command.Name.ofText? name with
      | none => exact Or.inl ⟨rfl, Or.inl rfl⟩
      | some command =>
        simp only [Option.bind_some]
        cases Command.parse? command rest with
        | none => exact Or.inl ⟨rfl, Or.inr ⟨name, parsed.value? "log-level", rfl⟩⟩
        | some c => exact Or.inr ⟨c, name, parsed.value? "log-level", rfl, rfl⟩

/-- A command line that gives a command runs it, unless the log cannot be set up. -/
theorem run_of_command (outside : Outside) (m : Machine) {args : List Text} {c : Command}
    (hc : command? args = some c) : ∃ m₁, m.Learns m₁ ∧
      ((∃ name level fault, (run args).run outside m =
          (refuse (logError? name level) fault).run outside m₁) ∨
        (run args).run outside m = (runCommand c).run outside m₁) := by
  rcases run_eq args with ⟨hnone, -⟩ | ⟨c', name, level, hc', hargs⟩
  · rw [hc] at hnone
    exact absurd hnone (by simp)
  obtain rfl : c = c' := Option.some.inj (hc.symm.trans hc')
  have hlearns : m.Learns ((LogLevel.configure level).run outside m).2 :=
    LogLevel.learns_configure level m
  rw [hargs]
  rcases hlog : (LogLevel.configure level).run outside m with ⟨fault | u, m₁⟩
  · rw [hlog] at hlearns
    exact ⟨m₁, hlearns, Or.inl ⟨name, level, fault, run_prepared_error _ hlog⟩⟩
  · rw [hlog] at hlearns
    exact ⟨m₁, hlearns, Or.inr (run_prepared_ok _ _ hlog)⟩

/-- The texts that a command line puts down. -/
def textsOf (args : List Text) : List Text := ((command? args).map Command.texts).getD []

/-- A command line for a project that is there leaves its record as it is, or changes it as its
command says. -/
theorem settled_run (houtside : outside.Spares place) (hplace : place.EndsAsProject)
    (h : m.Records place register) (hat : m.KeepsProjectAt place) (hnames : m.NamesProject)
    {args : List Text} (hargs : ∀ c ∈ command? args, c.isDaily = true) :
    Settled m place register (textsOf args)
      (fun register' => ∃ c ∈ command? args, c.Changes register register')
      ((run args).run outside m) := by
  rcases run_eq args with ⟨hcommand, hrun | ⟨name, level, hrun⟩⟩ | ⟨c, name, level, hcommand, hrun⟩
  · rw [hrun]
    exact .refused (by simp [usageCode]) rfl h
  · rw [hrun]
    refine settled_prepared h (LogLevel.spares_configure level) (onlyErrors_logError name level) ?_
    intro _ m' _ _ hrecords
    exact .refused (by simp [usageCode]) rfl hrecords
  · rw [hrun]
    have htexts : textsOf args = c.texts := by
      unfold textsOf
      rw [hcommand]
      rfl
    rw [htexts]
    refine settled_prepared h (LogLevel.spares_configure level) (onlyErrors_logError name level) ?_
    intro _ m' _ hsetting hrecords
    refine (settled_runCommand houtside hplace hrecords (hat.of_setting hsetting)
      (hnames.of_setting hsetting) (hargs c hcommand)).mono ?_
    intro register' hchanges
    exact ⟨c, hcommand, hchanges⟩

/-- An empty project file stays empty. -/
theorem spares_run_of_emptied (houtside : outside.Spares place) (hplace : place.EndsAsProject)
    (h : m.Emptied place) (hat : m.KeepsProjectAt place) {args : List Text}
    (hargs : ∀ c ∈ command? args, c.isDaily = true) :
    m.Spares place ((run args).run outside m).2 := by
  rcases run_eq args with ⟨-, hrun | ⟨name, level, hrun⟩⟩ | ⟨c, name, level, hcommand, hrun⟩
  · rw [hrun]
    exact refl_of (Machine.Spares place) m
  · rw [hrun]
    exact leaves_prepared spares_printed _ (LogLevel.spares_configure level) (fun _ => Task.leaves_pure _) m
  · rw [hrun]
    have hlog : m.Spares place ((LogLevel.configure level).run outside m).2 :=
      LogLevel.spares_configure level m
    rcases hconfigure : (LogLevel.configure level).run outside m with ⟨fault | u, m₁⟩
    · rw [hconfigure] at hlog
      exact spares_prepared_of_error hconfigure hlog
    · rw [hconfigure] at hlog
      rw [run_prepared_ok _ _ hconfigure]
      exact trans_of (Machine.Spares place) hlog (spares_of_emptied houtside hplace
        (h.of_spares hlog) (hat.of_setting hlog.setting) (hargs c hcommand))

end CommandLine

end Acceptance
