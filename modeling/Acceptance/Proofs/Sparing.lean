import Acceptance.CommandLine.Run
import Acceptance.Proofs.Batch
import Acceptance.Proofs.Places

/-! # What spares a file

No task writes a file but where its path leads, and other programs are asked to leave the file
alone. So most tasks spare it, whatever comes of them. What they do instead is a chain of steps of a
few kinds, and any relation that admits these says what the chain does. -/

namespace Acceptance

/-- Other programs leave the file at a place alone, and the directories above it. -/
def Outside.Spares (place : Place) (outside : Outside) : Prop :=
  ∀ effect, Machine.Does outside effect → ∀ directory s,
    FileTree.Spares place s.files (effect directory s).files

variable {outside : Outside} {place : Place} {m m' : Machine}

/-! ## Steps -/

namespace Machine

/-- Between the two machines no more than the settings were read. -/
def Learns (m m' : Machine) : Prop := ∃ settings, m' = { m with settings }

instance : IsPreorder Machine Learns where
  refl m := ⟨m.settings, rfl⟩
  trans := by
    rintro m _ _ ⟨s, rfl⟩ ⟨t, rfl⟩
    exact ⟨t, rfl⟩

/-- The steps of tests and commits are steps of `R`, and so is what other programs do meanwhile. -/
structure Admits (outside : Outside) (R : Machine → Machine → Prop) : Prop where
  quiet : ∀ {m m' : Machine}, m.Quiet m' → R m m'
  learns : ∀ {m m' : Machine}, m.Learns m' → R m m'
  counts : ∀ m : Machine, R m { m with runs := m.runs + 1 }
  after : ∀ {effect : Place → Surroundings → Surroundings}, Does outside effect →
    ∀ (m : Machine) (call : Call), R m (m.after call effect)

theorem Quiet.spares (h : m.Quiet m') : m.Spares place m' := ⟨h.setting, h.files.spares⟩

theorem Learns.spares (h : m.Learns m') : m.Spares place m' := by
  obtain ⟨settings, rfl⟩ := h
  exact ⟨rfl, refl_of (FileTree.Spares place) _⟩

theorem admits_spares (houtside : outside.Spares place) :
    Admits outside (Machine.Spares place) where
  quiet h := h.spares
  learns h := h.spares
  counts m := ⟨rfl, refl_of (FileTree.Spares place) m.files⟩
  after h m _ := ⟨rfl, houtside _ h m.directory m.toSurroundings⟩

end Machine

section

variable {R : Machine → Machine → Prop} [IsPreorder Machine R] (hR : Machine.Admits outside R)
include hR

/-! ## Programs -/

theorem Talk.admitted {g : Gateway} {es : List Exchange} (h : Talk g outside m es m') : R m m' := by
  refine h.preserves (P := R m) ?_ ?_ (refl_of R m)
  · intro m₁ m₂ hquiet hm
    exact trans_of R hm (hR.quiet hquiet)
  · intro m₁ call effect hdoes hm
    exact trans_of R hm (hR.after hdoes m₁ call)

theorem ChildProcess.leaves_run (argv : List Text) (silent : Bool) (timeout : Int)
    (environment : Environment) : (run argv silent timeout environment).Leaves outside R := by
  intro m
  by_cases hargv : argv = []
  · subst hargv
    exact refl_of R m
  cases hzero : Task.hasZero argv with
  | true =>
    rw [run_of_hasZero hzero]
    exact refl_of R m
  | false =>
    exact trans_of R (hR.after (.launch m.calls _) m _)
      (hR.quiet (quiet_run outside m hargv hzero silent timeout environment))

omit [IsPreorder Machine R] in
theorem Task.leaves_check (argv : List Text) (directory : Option Text) :
    (check argv directory).Leaves outside R := fun m => hR.after (.check m.calls argv) m _

theorem Task.leaves_runChecked (argv : List Text) (directory : Option Text) :
    (runChecked argv directory).Leaves outside R := by
  have houtput : ∀ bytes, (outputText bytes).Leaves outside R := by
    intro bytes
    unfold outputText
    split
    · exact leaves_pure _
    · exact leaves_fail _
  unfold runChecked
  split
  · exact leaves_fail _
  refine leaves_bind (leaves_check hR _ _) fun finished => ?_
  refine leaves_bind (houtput _) fun output => leaves_bind (houtput _) fun errors => ?_
  split
  · exact leaves_pure _
  · exact leaves_fail _

omit [IsPreorder Machine R] in
theorem Task.leaves_startClock : startClock.Leaves outside R :=
  quiet_startClock.mono fun _ _ h => hR.quiet h

theorem RunId.leaves_next : next.Leaves outside R :=
  Task.leaves_bind (Task.leaves_change hR.counts) fun _ => Task.leaves_read _

/-! ## Tests -/

theorem Install.leaves_runAll (list : List (List Text)) :
    (runAll list).Leaves outside R := by
  induction list with
  | nil => exact Task.leaves_pure _
  | cons argv rest ih =>
    refine Task.leaves_bind (ChildProcess.leaves_run hR _ _ _ _) fun result => ?_
    split
    · exact ih
    · exact Task.leaves_pure _

theorem Install.leaves_ensure (g : Gateway) :
    (ensure g).Leaves outside R := by
  refine Task.leaves_bind (Task.leaves_read _) fun isThere => ?_
  split
  · exact Task.leaves_pure _
  refine Task.leaves_bind (leaves_runAll hR _) fun succeeded => ?_
  split
  · exact Task.leaves_read _
  · exact Task.leaves_pure _

theorem Run.leaves_feature (g : Gateway) (f : Feature) (options : Options) :
    (Run.feature g f options).Leaves outside R := by
  refine Task.leaves_bind (Install.leaves_ensure hR g) fun ready => ?_
  split
  · intro m
    obtain ⟨report, said, after, hrun, htour, -⟩ := visitFeature_tour g f options outside m
    rw [hrun]
    exact htour.talk.admitted hR
  · exact Task.leaves_pure _

theorem Run.leaves_features (g : Gateway) (options : Options) (list : List Feature) :
    (features g options list).Leaves outside R := by
  induction list with
  | nil => exact Task.leaves_pure _
  | cons f rest ih =>
    refine Task.leaves_bind (leaves_feature hR g f options) fun report => ?_
    exact Task.leaves_bind ih fun others => Task.leaves_pure _

theorem Run.leaves_batch (g : Gateway) (all : List Feature) (options : Options) :
    (batch g all options).Leaves outside R := by
  refine Task.leaves_bind (Install.leaves_ensure hR g) fun ready => ?_
  split
  · exact Task.leaves_bind (leaves_features hR g options _) fun results => Task.leaves_pure _
  · exact Task.leaves_pure _

end

/-! ## Asking and reading

What reads only spares every file, and so does what changes no more than the parts of the machine
that belong to the program. -/

namespace Task

variable {R : Machine → Machine → Prop} [IsPreorder Machine R]

theorem leaves_pathExists (p : Path) : (pathExists p).Leaves outside R := by
  unfold pathExists
  split
  · exact leaves_pure _
  refine leaves_bind (leaves_read _) fun located => ?_
  split
  · exact leaves_read _
  · exact leaves_pure _
  · exact leaves_pure _
  · exact leaves_fail _

theorem leaves_onFiles {α : Type} (p : Path) (f : FileTree → Place → Except FileProblem α) :
    (onFiles p f).Leaves outside R := by
  have hpath : (checkPath p).Leaves outside R := by
    unfold checkPath
    split
    · exact leaves_fail _
    · exact leaves_pure _
  refine leaves_bind hpath fun _ => leaves_bind (leaves_read _) fun result => ?_
  split
  · exact leaves_pure _
  · exact leaves_fail _

theorem leaves_readText (p : Path) : (readText p).Leaves outside R := by
  refine leaves_bind (leaves_onFiles p _) fun content => ?_
  split
  · exact leaves_pure _
  · exact leaves_fail _

theorem leaves_fileSize (p : Path) : (fileSize p).Leaves outside R :=
  leaves_bind (leaves_onFiles p _) fun _ => leaves_pure _

theorem spares_ensureDirectory (p : Path) :
    (ensureDirectory p).Leaves outside (Machine.Spares place) :=
  (quiet_ensureDirectory p).mono fun _ _ h => h.spares

end Task

namespace Settings

theorem asks_file : file.Asks := by
  refine Task.asks_bind (Task.asks_setVariable? _) ?_
  rintro (_ | t)
  · refine Task.asks_bind (Task.asks_setVariable? _) ?_
    rintro (_ | t)
    · refine Task.asks_bind (Task.asks_expandHome _) fun home => ?_
      exact Task.asks_bind (Task.asks_pure _) fun _ => Task.asks_pure _
    · exact Task.asks_bind (Task.asks_expandHome _) fun _ => Task.asks_pure _
  · exact Task.asks_expandHome _

theorem learns_load : load.Leaves outside Machine.Learns := by
  refine Task.leaves_bind asks_file.leaves fun p => ?_
  refine Task.leaves_bind (Task.leaves_pathExists p) fun isThere => ?_
  split
  · refine Task.leaves_bind (Task.leaves_attempt (Task.leaves_readText p)) fun result => ?_
    split
    · exact Task.leaves_ofExcept _
    · exact Task.leaves_fail _
  · exact Task.leaves_pure _

theorem learns_value? (keys : List Text) : (value? keys).Leaves outside Machine.Learns := by
  have hget : get.Leaves outside Machine.Learns := by
    refine Task.leaves_bind (Task.leaves_read _) fun known => ?_
    split
    · exact Task.leaves_pure _
    refine Task.leaves_bind learns_load fun entries => ?_
    exact Task.leaves_bind (Task.leaves_change fun m => ⟨_, rfl⟩) fun _ => Task.leaves_pure _
  exact Task.leaves_bind hget fun _ => Task.leaves_pure _

theorem learns_int (keys : List Text) (standard : Int) :
    (int keys standard).Leaves outside Machine.Learns := by
  refine Task.leaves_bind (learns_value? keys) fun v => ?_
  split <;> exact Task.leaves_pure _

theorem learns_text (keys : List Text) (standard : Text) :
    (text keys standard).Leaves outside Machine.Learns := by
  refine Task.leaves_bind (learns_value? keys) fun v => ?_
  split <;> exact Task.leaves_pure _

theorem learns_table (keys : List Text) : (table keys).Leaves outside Machine.Learns := by
  refine Task.leaves_bind (learns_value? keys) fun v => ?_
  split
  · exact Task.leaves_ofExcept _
  · exact Task.leaves_pure _

end Settings

namespace LogLevel

theorem learns_configure (given : Option Text) :
    (configure given).Leaves outside Machine.Learns := by
  have hconfigured : configured.Leaves outside Machine.Learns := by
    refine Task.leaves_bind (Task.leaves_attempt (Settings.learns_text _ _)) fun result => ?_
    split
    · exact Task.leaves_pure _
    · exact Task.leaves_pure _
    · exact Task.leaves_fail _
  have hresolve : (resolve given).Leaves outside Machine.Learns := by
    unfold resolve
    split
    · exact Task.leaves_bind (Task.leaves_pure _) fun _ => Task.leaves_ofExcept _
    refine Task.leaves_bind (Task.asks_setVariable? _).leaves fun name => ?_
    split
    · exact Task.leaves_bind (Task.leaves_pure _) fun _ => Task.leaves_ofExcept _
    · exact Task.leaves_bind hconfigured fun _ => Task.leaves_ofExcept _
  exact Task.leaves_bind hresolve fun _ => Task.leaves_pure _

theorem spares_configure (given : Option Text) :
    (configure given).Leaves outside (Machine.Spares place) :=
  (learns_configure given).mono fun _ _ h => h.spares

end LogLevel

namespace Options

theorem learns_screenshotsOf (given : Option Text) :
    (screenshotsOf given).Leaves outside Machine.Learns := by
  unfold screenshotsOf
  extract_lets found
  have hfound : ∀ v : Option Value, (found v).Leaves outside Machine.Learns := by
    rintro (_ | v)
    · exact Task.leaves_pure _
    unfold found
    dsimp only
    split
    · refine Task.leaves_bind (Task.leaves_ofExcept _) fun t => ?_
      exact Task.leaves_bind (Layout.asks_screenshotsDirectory _).leaves fun p => Task.leaves_pure _
    · exact Task.leaves_pure _
  split
  · exact Task.leaves_bind (Task.leaves_pure _) hfound
  · exact Task.leaves_bind (Settings.learns_value? _) hfound

theorem learns_load (given : Given) : (load given).Leaves outside Machine.Learns := by
  have hbaseUrl : (baseUrlOf given.baseUrl).Leaves outside Machine.Learns := by
    unfold baseUrlOf
    split
    · exact Task.leaves_pure _
    · exact Task.leaves_bind (Task.asks_setVariable? _).leaves fun _ => Settings.learns_text _ _
  have hheadless : (headlessOf given.headless).Leaves outside Machine.Learns := by
    unfold headlessOf isOn
    split
    · exact Task.leaves_pure _
    refine Task.leaves_bind (Settings.learns_value? _) fun v => ?_
    split
    · exact Task.leaves_pure _
    refine Task.leaves_bind (Task.asks_environment? _).leaves fun t => ?_
    split <;> exact Task.leaves_pure _
  have htimeout : (timeoutOf given.timeout).Leaves outside Machine.Learns := by
    unfold timeoutOf
    split
    · exact Task.leaves_pure _
    · exact Task.leaves_bind (Settings.learns_int _ _) fun _ => Task.leaves_pure _
  have hcredentials : credentialsOf.Leaves outside Machine.Learns := by
    refine Task.leaves_bind (Settings.learns_text _ _) fun _ => ?_
    refine Task.leaves_bind (Settings.learns_text _ _) fun _ => ?_
    refine Task.leaves_bind (Settings.learns_text _ _) fun _ => ?_
    refine Task.leaves_bind (Settings.learns_text _ _) fun _ => ?_
    exact Task.leaves_bind (Settings.learns_text _ _) fun _ => Task.leaves_pure _
  refine Task.leaves_bind hbaseUrl fun _ => Task.leaves_bind hheadless fun _ => ?_
  refine Task.leaves_bind htimeout fun _ => ?_
  refine Task.leaves_bind (Task.leaves_bind (Settings.learns_table _) fun _ => Task.leaves_pure _)
    fun _ => Task.leaves_bind hcredentials fun _ => ?_
  refine Task.leaves_bind (learns_screenshotsOf _) fun _ => ?_
  refine Task.leaves_bind (Settings.learns_int _ _) fun _ => ?_
  refine Task.leaves_bind (Settings.learns_int _ _) fun _ => ?_
  refine Task.leaves_bind (Settings.learns_int _ _) fun _ => ?_
  refine Task.leaves_bind (Settings.learns_int _ _) fun _ => ?_
  exact Task.leaves_bind (Settings.learns_text _ _) fun _ => Task.leaves_pure _

theorem spares_load (given : Given) : (load given).Leaves outside (Machine.Spares place) :=
  (learns_load given).mono fun _ _ h => h.spares

end Options

namespace Project

variable {R : Machine → Machine → Prop} [IsPreorder Machine R]

theorem leaves_load : load.Leaves outside R := by
  refine Task.leaves_bind Layout.asks_featuresFile.leaves fun p => ?_
  refine Task.leaves_bind (Task.leaves_pathExists p) fun isThere => ?_
  split
  · refine Task.leaves_bind (Task.leaves_attempt (Task.leaves_readText p)) fun result => ?_
    split
    · exact Task.leaves_fail _
    · exact Task.leaves_bind (Task.leaves_ofExcept _) fun v => Task.leaves_ofExcept _
  · exact Task.leaves_fail _

theorem leaves_feature (id : Value) : (feature id).Leaves outside R :=
  Task.leaves_bind leaves_load fun _ =>
    Task.leaves_bind (Task.leaves_ofExcept _) fun _ => Task.leaves_ofExcept _

theorem leaves_allFeatures : allFeatures.Leaves outside R :=
  Task.leaves_bind leaves_load fun _ => Task.leaves_ofExcept _

theorem spares_writeDocument {p : Path} (h : Place.ofPath m.directory p ≠ place) (v : Value) :
    m.Spares place ((writeDocument p v).run outside m).2 := by
  unfold writeDocument
  split
  · exact Task.spares_writeText h
  · exact refl_of (Machine.Spares place) m

end Project

/-! ## Commits -/

theorem Commit.leaves_run {R : Machine → Machine → Prop} [IsPreorder Machine R]
    (hR : Machine.Admits outside R) (id given : Option Text) :
    (Commit.run id given).Leaves outside R := by
  have hrepository : ∀ root, (requireRepository root).Leaves outside R := by
    intro root
    refine Task.leaves_bind (Task.leaves_attempt (Task.leaves_runChecked hR _ _)) fun r => ?_
    split
    · exact Task.leaves_pure _
    · exact Task.leaves_fail _
    · exact Task.leaves_fail _
  have htool : (Task.requireTool "git").Leaves outside R := by
    refine Task.leaves_bind (Task.leaves_read _) fun path => ?_
    split
    · exact Task.leaves_pure _
    · exact Task.leaves_fail _
  have hmessage : (message id given).Leaves outside R := by
    unfold message
    split
    · exact Task.leaves_pure _
    · refine Task.leaves_bind Project.leaves_load fun project => ?_
      refine Task.leaves_bind (Task.leaves_ofExcept _) fun description => ?_
      split <;> exact Task.leaves_pure _
    · exact Task.leaves_pure _
  refine Task.leaves_bind Project.leaves_load fun project => ?_
  refine Task.leaves_bind Layout.asks_projectDirectory.leaves fun root => ?_
  refine Task.leaves_bind htool fun _ => Task.leaves_bind (hrepository _) fun _ => ?_
  refine Task.leaves_bind hmessage fun message => ?_
  refine Task.leaves_bind (Task.leaves_runChecked hR _ _) fun _ => ?_
  refine Task.leaves_bind (Task.leaves_runChecked hR _ _) fun status => ?_
  split
  · exact Task.leaves_fail _
  · exact Task.leaves_bind (Task.leaves_runChecked hR _ _) fun _ => Task.leaves_pure _

end Acceptance
