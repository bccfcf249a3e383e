import Acceptance.Proofs.Changes
import Acceptance.Proofs.Editing
import Acceptance.Proofs.WorkingOff

/-! # Verdicts

A test or a verification that runs writes down the result of the run and answers with it. Whether the
answer is good is decided by the result alone. A verification that passed accepts its feature in the
project file as it is when the run has ended. -/

namespace Acceptance

variable {outside : Outside} {place : Place} {m m' : Machine} {id : Text} {notes : Option Text}

/-! ## Accepting -/

namespace Project

/-- The second content is what accepting the feature makes of the first. -/
def Accepts (id : Text) (notes : Option Text) (content content' : List UInt8) : Prop :=
  ∃ (project : Project) (k : Nat) (e u : Entries) (completed updated : Instant) (tally : Tally)
    (document : Text),
    Json.Means content (.object project.data) ∧
    project.data.get? "features" = some (.list project.features) ∧
    locate (.text id) project.features = .ok (k, e) ∧
    Entry.complete e (Value.ofText? notes) completed = .ok u ∧
    Tally.ofValues (project.features.set k (.object u)) = .ok tally ∧
    Json.write (.object (dataAt { project with features := project.features.set k (.object u) }
      updated tally)) = .ok document ∧
    content' = document.flatMap Utf8.bytesOf

/-- A feature that is marked is accepted in the project file as it is, and no other file changes. -/
theorem markDone_accepts (hat : m.KeepsProjectAt place) {answer : Value × Tally}
    (h : (markDone (.text id) (Value.ofText? notes)).run outside m = (.ok answer, m')) :
    ∃ content executable content' executable',
      m.files.get? place = some (.file content executable) ∧
      m' = m.withFile place content' executable' ∧ Accepts id notes content content' := by
  obtain ⟨project, m₁, hload, hmark⟩ := Task.run_bind_eq_ok h
  obtain ⟨rfl, p, content, executable, hproject, hcontent⟩ := Project.load_eq_ok hload
  obtain ⟨hmeans, hlist⟩ := ofContent_eq_ok.mp hcontent
  obtain rfl := hat outside p hproject.path
  obtain ⟨⟨k, e⟩, m₂, hlocate, hfound⟩ := Task.run_bind_eq_ok hmark
  rw [Task.run_ofExcept] at hlocate
  obtain ⟨hk, rfl⟩ := Prod.mk.inj hlocate
  rw [Task.run_bind, Layout.asks_now.run_self] at hfound
  rcases hnow : (Layout.now.run outside m₁).1 with fault | now
  · rw [hnow] at hfound
    exact absurd (Prod.mk.inj hfound).1 (by simp)
  rw [hnow] at hfound
  obtain ⟨u, m₃, hcomplete, hwritten⟩ := Task.run_bind_eq_ok hfound
  rw [Task.run_ofExcept] at hcomplete
  obtain ⟨hu, rfl⟩ := Prod.mk.inj hcomplete
  obtain ⟨tally, m₄, hsave, hanswer⟩ := Task.run_bind_eq_ok hwritten
  obtain ⟨now', q, document, executable', -, htally, hq, hwrite, -, -, rfl⟩ := save_eq_ok hsave
  obtain rfl : p = q := Except.ok.inj (hproject.path.symm.trans hq)
  exact ⟨content, executable, _, executable', hproject.file, (Prod.mk.inj hanswer).2.symm,
    project, k, e, u, now, now', tally, document, hmeans, hlist, hk, hu, htally, hwrite, rfl⟩

end Project

/-! ## Records -/

/-- The record of a run is in a file of its own, in the directory of records. -/
def Machine.HasRecord (outside : Outside) (m : Machine) (runId command : Text) (options : Options)
    (result : Value) : Prop :=
  ∃ directory now document executable, (Layout.runsDirectory.run outside m).1 = .ok directory ∧
    Json.write (CommandLine.runRecord runId command now options result) = .ok document ∧
    m.files.get? (Place.ofPath m.directory (directory.child (runId ++ ".json"))) =
      some (.file (document.flatMap Utf8.bytesOf) executable)

namespace CommandLine

variable {command runPath : Text} {options : Options} {result : Value} {n : Nat}

theorem writeRun_eq_ok
    (h : (writeRun (RunId.ofNat n) command options result).run outside m = (.ok runPath, m')) :
    m'.HasRecord outside (RunId.ofNat n) command options result := by
  unfold writeRun at h
  rw [Task.run_bind, Layout.asks_runsDirectory.run_self] at h
  rcases hdirectory : (Layout.runsDirectory.run outside m).1 with fault | directory
  · rw [hdirectory] at h
    exact absurd (Prod.mk.inj h).1 (by simp)
  rw [hdirectory] at h
  obtain ⟨_, m₁, hensure, h⟩ := Task.run_bind_eq_ok h
  have hquiet : m.Quiet m₁ := (Task.quiet_ensureDirectory directory).of_run hensure
  rw [Task.run_bind, Layout.asks_now.run_self] at h
  rcases hnow : (Layout.now.run outside m₁).1 with fault | now
  · rw [hnow] at h
    exact absurd (Prod.mk.inj h).1 (by simp)
  rw [hnow] at h
  obtain ⟨_, m₂, hwritten, h⟩ := Task.run_bind_eq_ok h
  obtain ⟨hnode, document, executable, hwrite, rfl⟩ := Project.writeDocument_eq_ok hwritten
  obtain rfl := (Prod.mk.inj h).2
  refine ⟨directory, now, document, executable,
    (Layout.asks_runsDirectory.answer_eq ?_).trans hdirectory, hwrite,
    Machine.get?_withFile hnode _ _⟩
  exact hquiet.setting

end CommandLine

theorem Machine.HasRecord.of_files {runId command : Text} {options : Options} {result : Value}
    (h : m.HasRecord outside runId command options result) (hsetting : m'.setting = m.setting)
    (hfiles : m'.files = m.files) : m'.HasRecord outside runId command options result := by
  obtain ⟨directory, now, document, executable, hdirectory, hwrite, hfile⟩ := h
  have hsame : m'.directory = m.directory := congrArg Setting.directory hsetting
  exact ⟨directory, now, document, executable,
    (Layout.asks_runsDirectory.answer_eq hsetting).trans hdirectory, hwrite,
    by rw [hfiles, hsame, hfile]⟩

/-- The record is another file than the project file. -/
theorem Machine.HasRecord.withFile {command : Text} {options : Options} {result : Value} {n : Nat}
    (h : m.HasRecord outside (RunId.ofNat n) command options result) (hplace : place.EndsAsProject)
    (content : List UInt8) (executable : Bool) :
    (m.withFile place content executable).HasRecord outside (RunId.ofNat n) command options
      result := by
  obtain ⟨directory, now, document, executable', hdirectory, hwrite, hfile⟩ := h
  refine ⟨directory, now, document, executable',
    (Layout.asks_runsDirectory.answer_eq (m.withFile_setting _ _ _)).trans hdirectory, hwrite, ?_⟩
  · have hne := hplace.ne_child (RunId.isName_fileName n) (RunId.fileName_ne n) m.directory directory
    exact (FileTree.get?_put_of_ne _ _ hne).trans hfile

/-! ## Answers -/

/-- What an answer carries: its data, or the details of its error. -/
def Envelope.payload (e : Envelope) : Value :=
  match e.answer with
  | .ok data _ _ _ => data
  | .error _ _ details => details

namespace CommandLine

/-- The envelope is printed and gives the exit code, or it cannot be printed. -/
inductive Emitted (m : Machine) (e : Envelope) : Except Fault Nat × Machine → Prop where
  | refused (fault : Fault) : Emitted m e (.error fault, m)
  | told {document : Text} (hwrite : Json.write e.toValue = .ok document) :
    Emitted m e (.ok (if e.isOk then 0 else 1), printed m (document ++ "\n"))

theorem emitted_emit (outside : Outside) (m : Machine) (e : Envelope) :
    Emitted m e ((emit e).run outside m) := by
  unfold emit
  split
  next document hwrite =>
    unfold Task.print
    cases Utf8.encode (document ++ "\n") with
    | ok bytes => exact .told hwrite
    | error problem => exact .refused _
  next => exact .refused _

theorem Emitted.files {e : Envelope} {outcome : Except Fault Nat × Machine}
    (h : Emitted m e outcome) : outcome.2.setting = m.setting ∧ outcome.2.files = m.files := by
  cases h <;> exact ⟨rfl, rfl⟩

/-- The answer to a run: it carries the id of the run and these fields, and the record of the run
is there and has the result. -/
structure Answers (outside : Outside) (command runId : Text) (options : Options) (result : Value)
    (fields : List (Text × Value)) (m : Machine) (e : Envelope)
    (outcome : Except Fault Nat × Machine) : Prop where
  carries : ∀ f ∈ (Text.of "run_id", Value.text runId) :: fields, e.payload.at? [f.1] = some f.2
  recorded : outcome.2.HasRecord outside runId command options result
  emitted : Emitted m e outcome

/-! ## Runs -/

/-- Nothing has been printed yet, and no one but other programs did anything to the project file. -/
structure Unanswered (outside : Outside) (place : Place) (m m' : Machine) : Prop where
  edited : m.Edited outside place m'
  printed : m'.printed = m.printed

instance : IsPreorder Machine (Unanswered outside place) where
  refl _ := ⟨.start, rfl⟩
  trans _ _ _ h k := ⟨trans_of (Machine.Edited outside place) h.edited k.edited,
    k.printed.trans h.printed⟩

theorem admits_unanswered : Machine.Admits outside (Unanswered outside place) where
  quiet h := ⟨Machine.admits_edited.quiet h, h.printed⟩
  learns := by
    rintro m _ ⟨settings, rfl⟩
    exact ⟨Machine.admits_edited.learns ⟨settings, rfl⟩, rfl⟩
  counts m := ⟨Machine.admits_edited.counts m, rfl⟩
  after hdoes m call := ⟨Machine.admits_edited.after hdoes m call, rfl⟩

section

variable {ρ σ : Type}

/-- A run of what was loaded gives the report. -/
def Executes (outside : Outside) (load : Task (Options × σ)) (run : Options → σ → Task ρ)
    (options : Options) (m : Machine) (report : ρ) (m' : Machine) : Prop :=
  ∃ x before loaded, load.run outside before = (.ok (options, x), loaded) ∧
    (run options x).run outside m = (.ok report, m')

/-- How a command goes that may run a test. Up to the end of the run the project file is left to
other programs, and writing the record leaves it alone. If there is no run, the answer is an error;
if there is one, `P` says what comes after its record. -/
inductive Runs (outside : Outside) (place : Place) (command : Text)
    (executes : Options → Machine → ρ → Machine → Prop) (value : ρ → Value)
    (P : Text → Options → ρ → Machine → Except Fault Nat × Machine → Prop) (m : Machine) :
    Except Fault Nat × Machine → Prop where
  | unready {m₁ : Machine} {e : Envelope} {outcome : Except Fault Nat × Machine}
      (hbefore : Unanswered outside place m m₁) (herror : e.isOk = false)
      (hemitted : Emitted m₁ e outcome) : Runs outside place command executes value P m outcome
  | stopped {m₁ : Machine} (fault : Fault) (hbefore : Unanswered outside place m m₁) :
      Runs outside place command executes value P m (.error fault, m₁)
  | ran {m₀ m₁ m₂ : Machine} {n : Nat} {options : Options} {report : ρ}
      {outcome : Except Fault Nat × Machine} (hexecutes : executes options m₀ report m₁)
      (hbefore : Unanswered outside place m m₁) (hkeeps : m₁.Keeps place m₂)
      (hrecord : m₂.HasRecord outside (RunId.ofNat n) command options (value report))
      (hafter : P (RunId.ofNat n) options report m₂ outcome) :
      Runs outside place command executes value P m outcome

variable {load : Task (Options × σ)} {onFault : Fault → Option Envelope}
  {run : Options → σ → Task ρ} {command : Text} {value : ρ → Value}
  {executes : Options → Machine → ρ → Machine → Prop}
  {P : Text → Options → ρ → Machine → Except Fault Nat × Machine → Prop}

theorem Runs.of_unanswered {outcome : Except Fault Nat × Machine}
    (h : Runs outside place command executes value P m' outcome)
    (hbefore : Unanswered outside place m m') :
    Runs outside place command executes value P m outcome := by
  have hall : ∀ {m₁}, Unanswered outside place m' m₁ → Unanswered outside place m m₁ :=
    trans_of (Unanswered outside place) hbefore
  cases h with
  | unready h₁ herror hemitted => exact .unready (hall h₁) herror hemitted
  | stopped fault h₁ => exact .stopped fault (hall h₁)
  | ran hexecutes h₁ hkeeps hrecord hafter => exact .ran hexecutes (hall h₁) hkeeps hrecord hafter

theorem runs_refuse (hbefore : Unanswered outside place m m') (h : OnlyErrors onFault)
    (fault : Fault) : Runs outside place command executes value P m
      ((refuse onFault fault).run outside m') := by
  unfold refuse
  split
  next e he => exact .unready hbefore (h fault e he) (emitted_emit outside m' e)
  next => exact .stopped fault hbefore

/-- What is loaded, run, recorded and answered, step by step. -/
theorem runs_recorded (rest : Text → Text → Options → ρ → Task Nat)
    (hplace : place.EndsAsProject) (hload : load.Leaves outside Machine.Learns)
    (hfault : OnlyErrors onFault)
    (hrun : ∀ options x, (run options x).Leaves outside (Unanswered outside place))
    (hrest : ∀ n runPath options report m₀ m₁ m₂, Executes outside load run options m₀ report m₁ →
      m₂.setting = m.setting →
      m₂.HasRecord outside (RunId.ofNat n) command options (value report) →
      P (RunId.ofNat n) options report m₂
        ((rest (RunId.ofNat n) runPath options report).run outside m₂)) :
    Runs outside place command (Executes outside load run) value P m
      ((prepared load onFault fun (options, x) => do
        let runId ← RunId.next
        Task.startClock
        let report ← run options x
        let runPath ← writeRun runId command options (value report)
        rest runId runPath options report).run outside m) := by
  have hR : Machine.Admits outside (Unanswered outside place) := admits_unanswered
  rcases hloaded : load.run outside m with ⟨fault | ⟨options, x⟩, m₁⟩
  · rw [run_prepared_error _ hloaded]
    exact runs_refuse (hR.learns (hload.of_run hloaded)) hfault fault
  have hlearns := hR.learns (hload.of_run hloaded)
  rw [run_prepared_ok _ _ hloaded]
  dsimp only
  rcases hnext : RunId.next.run outside m₁ with ⟨fault | runId, m₂⟩
  · exact absurd (Prod.mk.inj hnext).1 (by simp)
  obtain ⟨n, rfl⟩ := RunId.gives_next m₁ runId (congrArg Prod.fst hnext)
  rw [Task.run_bind_ok hnext]
  rcases hclock : Task.startClock.run outside m₂ with ⟨fault | u, m₃⟩
  · exact absurd (Prod.mk.inj hclock).1 (by simp)
  rw [Task.run_bind_ok hclock]
  have hbegun : Unanswered outside place m m₃ :=
    trans_of (Unanswered outside place) (trans_of (Unanswered outside place) hlearns
      ((RunId.leaves_next hR).of_run hnext)) ((Task.leaves_startClock hR).of_run hclock)
  rcases hreport : (run options x).run outside m₃ with ⟨fault | report, m₄⟩
  · rw [Task.run_bind_error hreport]
    exact .stopped fault (trans_of (Unanswered outside place) hbegun ((hrun options x).of_run hreport))
  rw [Task.run_bind_ok hreport]
  have hended := trans_of (Unanswered outside place) hbegun ((hrun options x).of_run hreport)
  have hexecutes : Executes outside load run options m₃ report m₄ := ⟨x, m, m₁, hloaded, hreport⟩
  rcases hwrite : (writeRun (RunId.ofNat n) command options (value report)).run outside m₄ with
    ⟨fault | runPath, m₅⟩
  · have hkeeps := (keeps_writeRun hplace n _ _ _).of_run hwrite
    rw [Task.run_bind_error hwrite]
    exact .stopped fault (trans_of (Unanswered outside place) hended ⟨hkeeps.edited, hkeeps.printed⟩)
  · have hkeeps := (keeps_writeRun hplace n _ _ _).of_run hwrite
    have hrecord := writeRun_eq_ok hwrite
    have hsetting := hkeeps.setting.trans hended.edited.setting
    rw [Task.run_bind_ok hwrite]
    exact .ran hexecutes hended hkeeps hrecord
      (hrest n runPath options report m₃ m₄ m₅ hexecutes hsetting hrecord)

end

/-! ## Reports and envelopes -/

theorem carries_featureEnvelope (command runId runPath : Text) (report : FeatureReport)
    (extra : List (Text × Value)) :
    ∀ f ∈ [(Text.of "run_id", Value.text runId), (Text.of "result", report.toValue)],
      (featureEnvelope command runId runPath report extra).payload.at? [f.1] = some f.2 := by
  unfold featureEnvelope
  simp only [List.forall_mem_cons]
  split <;> exact ⟨rfl, rfl, by simp⟩

theorem carries_batchEnvelope (runId runPath : Text) (report : BatchReport) :
    ∀ f ∈ (Text.of "run_id", Value.text runId) :: report.fields,
      (batchEnvelope runId runPath report).payload.at? [f.1] = some f.2 := by
  unfold batchEnvelope BatchReport.fields
  simp only [List.forall_mem_cons]
  split
  · exact ⟨rfl, rfl, rfl, rfl, rfl, rfl, by simp⟩
  · split <;> exact ⟨rfl, rfl, rfl, rfl, rfl, rfl, by simp⟩

/-- Without an error, the batch counts the features that failed. -/
theorem gives_batch (g : Gateway) (all : List Feature) (options : Options) :
    (Run.batch g all options).Gives outside fun report =>
      report.error = none → report.failed = report.results.countP (!·.passed) := by
  refine Task.gives_bind (Task.gives_true _) fun ready _ => ?_
  split
  · exact Task.gives_bind (Task.gives_true _) fun results _ => Task.gives_pure fun _ => rfl
  · exact Task.gives_pure fun h => absurd h (by simp)

theorem isOk_batchEnvelope (runId runPath : Text) {report : BatchReport}
    (h : report.error = none → report.failed = report.results.countP (!·.passed)) :
    (batchEnvelope runId runPath report).isOk = true ↔
      report.error = none ∧ ∀ r ∈ report.results, r.passed = true := by
  unfold batchEnvelope
  cases herror : report.error with
  | some error => simp [Envelope.isOk, Envelope.error]
  | none =>
    have hfailed : report.failed = 0 ↔ ∀ r ∈ report.results, r.passed = true := by
      rw [h herror, List.countP_eq_zero]
      simp
    dsimp only
    rw [← hfailed]
    split
    next hzero => simp [Envelope.isOk, Envelope.okWith, hzero]
    next hzero => simp [Envelope.isOk, Envelope.error, hzero]

/-! ## Verdicts -/

/-- What is answered to a test of a feature: the answer is good if and only if the test passed. -/
def TestAnswered (outside : Outside) (runId : Text) (options : Options) (report : FeatureReport)
    (m : Machine) (outcome : Except Fault Nat × Machine) : Prop :=
  ∃ e, e.isOk = report.passed ∧
    Answers outside "test" runId options report.toValue [("result", report.toValue)] m e outcome

/-- What is answered to a batch: the answer is good if and only if the batch has no error and all
tests passed. -/
def BatchAnswered (outside : Outside) (runId : Text) (options : Options) (report : BatchReport)
    (m : Machine) (outcome : Except Fault Nat × Machine) : Prop :=
  ∃ e, (e.isOk = true ↔ report.error = none ∧ ∀ r ∈ report.results, r.passed = true) ∧
    Answers outside "test" runId options report.toValue report.fields m e outcome

/-- What is done after the run of a verification: if the run did not pass, an error is answered and
no more; if it passed, the feature is marked once, and the answer is good as soon as that is done. -/
inductive Verified (outside : Outside) (place : Place) (id : Text) (notes : Option Text)
    (runId : Text) (options : Options) (report : FeatureReport) (m : Machine) :
    Except Fault Nat × Machine → Prop where
  | failed {e : Envelope} {outcome : Except Fault Nat × Machine} (hfailed : report.passed = false)
      (herror : e.isOk = false)
      (hanswers : Answers outside "verify" runId options report.toValue
        [("result", report.toValue)] m e outcome) :
      Verified outside place id notes runId options report m outcome
  | unmarked {fault : Fault} {m' : Machine} (hpassed : report.passed = true)
      (hmark : (Project.markDone (.text id) (Value.ofText? notes)).run outside m =
        (.error fault, m')) :
      Verified outside place id notes runId options report m (.error fault, m')
  | marked {answer : Value × Tally} {content content' : List UInt8} {executable executable' : Bool}
      {e : Envelope} {outcome : Except Fault Nat × Machine} (hpassed : report.passed = true)
      (hmark : (Project.markDone (.text id) (Value.ofText? notes)).run outside m =
        (.ok answer, m.withFile place content' executable'))
      (hfile : m.files.get? place = some (.file content executable))
      (haccepts : Project.Accepts id notes content content') (hok : e.isOk = true)
      (hanswers : Answers outside "verify" runId options report.toValue
        [("result", report.toValue)] (m.withFile place content' executable') e outcome) :
      Verified outside place id notes runId options report m outcome

section

variable {options : Options} {report : FeatureReport} {runPath : Text} {n : Nat}

theorem answers_feature {command : Text} {extra : List (Text × Value)}
    (hrecord : m.HasRecord outside (RunId.ofNat n) command options report.toValue) :
    Answers outside command (RunId.ofNat n) options report.toValue [("result", report.toValue)] m
      (featureEnvelope command (RunId.ofNat n) runPath report extra)
      ((emit (featureEnvelope command (RunId.ofNat n) runPath report extra)).run outside m) := by
  have hemitted := emitted_emit outside m (featureEnvelope command (RunId.ofNat n) runPath report extra)
  exact ⟨carries_featureEnvelope _ _ _ _ _, hrecord.of_files hemitted.files.1 hemitted.files.2,
    hemitted⟩

theorem verified_rest (hplace : place.EndsAsProject) (hat : m.KeepsProjectAt place)
    (hrecord : m.HasRecord outside (RunId.ofNat n) "verify" options report.toValue) :
    Verified outside place id notes (RunId.ofNat n) options report m
      ((do
        let extra ← acceptIfPassed report id notes
        emit (featureEnvelope "verify" (RunId.ofNat n) runPath report extra) : Task Nat).run
        outside m) := by
  unfold acceptIfPassed
  cases hpassed : report.passed with
  | false =>
    rw [if_neg (by simp), Task.run_pure_bind]
    exact .failed hpassed ((isOk_featureEnvelope _ _ _ _ _).trans hpassed) (answers_feature hrecord)
  | true =>
    rw [if_pos rfl, Task.run_bind_assoc]
    rcases hmark : (Project.markDone (.text id) (Value.ofText? notes)).run outside m with
      ⟨fault | answer, m'⟩
    · rw [Task.run_bind_error hmark]
      exact .unmarked hpassed hmark
    · obtain ⟨content, executable, content', executable', hfile, rfl, haccepts⟩ :=
        Project.markDone_accepts hat hmark
      rw [Task.run_bind_ok hmark]
      exact .marked hpassed hmark hfile haccepts ((isOk_featureEnvelope _ _ _ _ _).trans hpassed)
        (answers_feature (hrecord.withFile hplace content' executable'))

end

section

variable (hplace : place.EndsAsProject) (given : Options.Given)
include hplace

theorem runs_testOne (id : Text) :
    Runs outside place "test" (Executes outside (optionsAndFeature given id)
      fun options f => Run.feature options.gateway f options) FeatureReport.toValue
      (TestAnswered outside) m ((runTestOne given id).run outside m) := by
  refine runs_recorded (fun runId runPath _ report =>
    emit (featureEnvelope "test" runId runPath report [])) hplace
    (learns_optionsAndFeature given id) (onlyErrors_projectError _ _)
    (fun options f => Run.leaves_feature admits_unanswered _ _ _) ?_
  intro n runPath options report m₀ m₁ m₂ _ _ hrecord
  exact ⟨_, isOk_featureEnvelope _ _ _ _ _, answers_feature hrecord⟩

theorem runs_testAll :
    Runs outside place "test" (Executes outside (optionsAndFeatures given)
      fun options features => Run.batch options.gateway features options) BatchReport.toValue
      (BatchAnswered outside) m ((runTestAll given).run outside m) := by
  refine runs_recorded (fun runId runPath _ report =>
    emit (batchEnvelope runId runPath report)) hplace
    (learns_optionsAndFeatures given) (onlyErrors_projectError _ _)
    (fun options features => Run.leaves_batch admits_unanswered _ _ _) ?_
  rintro n runPath options report m₀ m₁ m₂ ⟨features, -, -, -, hrun⟩ _ hrecord
  have hcount := gives_batch options.gateway features options m₀ report (congrArg Prod.fst hrun)
  have hemitted := emitted_emit outside m₂ (batchEnvelope (RunId.ofNat n) runPath report)
  exact ⟨_, isOk_batchEnvelope _ _ hcount, carries_batchEnvelope _ _ _,
    hrecord.of_files hemitted.files.1 hemitted.files.2, hemitted⟩

theorem runs_verify (hat : m.KeepsProjectAt place) (id : Text) (notes : Option Text) :
    Runs outside place "verify" (Executes outside (optionsAndFeature given id)
      fun options f => Run.feature options.gateway f options) FeatureReport.toValue
      (Verified outside place id notes) m ((runVerify id notes given).run outside m) := by
  refine runs_recorded (fun runId runPath _ report => do
    let extra ← acceptIfPassed report id notes
    emit (featureEnvelope "verify" runId runPath report extra)) hplace
    (learns_optionsAndFeature given id) (onlyErrors_projectError _ _)
    (fun options f => Run.leaves_feature admits_unanswered _ _ _) ?_
  intro n runPath options report m₀ m₁ m₂ _ hsetting hrecord
  exact verified_rest hplace (hat.of_setting hsetting) hrecord

end

/-- What is answered to a test that a command line asks for: a feature or a batch is tested, or
neither if the arguments do not say which. -/
def Tests (outside : Outside) (place : Place) (id : Option Text) (all : Bool) (given : Options.Given)
    (m : Machine) (outcome : Except Fault Nat × Machine) : Prop :=
  match id.filter (!·.isEmpty), all with
  | some id, false => Runs outside place "test" (Executes outside (optionsAndFeature given id)
      fun options f => Run.feature options.gateway f options) FeatureReport.toValue
      (TestAnswered outside) m outcome
  | none, true => Runs outside place "test" (Executes outside (optionsAndFeatures given)
      fun options features => Run.batch options.gateway features options) BatchReport.toValue
      (BatchAnswered outside) m outcome
  | _, _ => Runs outside place "test" (fun _ _ _ _ => False) FeatureReport.toValue
      (TestAnswered outside) m outcome

theorem tests_runTest (hplace : place.EndsAsProject) (id : Option Text) (all : Bool)
    (given : Options.Given) :
    Tests outside place id all given m ((runTest id all given).run outside m) := by
  have hrefused : ∀ message, Runs outside place "test" (fun _ _ _ _ => False) FeatureReport.toValue
      (TestAnswered outside) m ((refuseTest message).run outside m) :=
    fun message => .unready (refl_of (Unanswered outside place) m) rfl (emitted_emit outside m _)
  unfold Tests runTest
  generalize id.filter (!·.isEmpty) = chosen
  rcases chosen with _ | id <;> cases all
  · exact hrefused _
  · exact runs_testAll hplace given
  · exact runs_testOne hplace given id
  · exact hrefused _

theorem tests_refuse {onFault : Fault → Option Envelope} (h : OnlyErrors onFault)
    (hbefore : Unanswered outside place m m') (id : Option Text) (all : Bool)
    (given : Options.Given) (fault : Fault) :
    Tests outside place id all given m ((refuse onFault fault).run outside m') := by
  unfold Tests
  split <;> exact runs_refuse hbefore h fault

theorem Tests.of_unanswered {id : Option Text} {all : Bool} {given : Options.Given}
    {outcome : Except Fault Nat × Machine} (h : Tests outside place id all given m' outcome)
    (hbefore : Unanswered outside place m m') : Tests outside place id all given m outcome := by
  unfold Tests at h ⊢
  split at h <;> exact h.of_unanswered hbefore

/-- Tests and verifications of a command line. A test does nothing to the project file, so the file
is the same in the end unless another program edits it. A verification does something to it only
when its run has passed: it accepts the feature in the file as it is by then. Whatever is answered is
good if and only if the run passed and, in a verification, the feature is marked; it has the result
that is on record under the id of the run. -/
theorem run_verdicts (outside : Outside) (m : Machine) (hplace : place.EndsAsProject)
    (hat : m.KeepsProjectAt place) (args : List Text) :
    (∀ id all includePending baseUrl headless,
      command? args = some (.test id all includePending baseUrl headless) →
      m.Edited outside place ((run args).run outside m).2 ∧
      ((∀ effect, Machine.Does outside effect → ∀ directory s,
          FileTree.SameFile place s.files (effect directory s).files) →
        m.files.SameFile place ((run args).run outside m).2.files) ∧
      Tests outside place id all { baseUrl, headless, testAll := includePending } m
        ((run args).run outside m)) ∧
    ∀ id notes baseUrl headless, command? args = some (.verify id notes baseUrl headless) →
      Runs outside place "verify" (Executes outside (optionsAndFeature { baseUrl, headless } id)
        fun options f => Run.feature options.gateway f options) FeatureReport.toValue
        (Verified outside place id notes) m ((run args).run outside m) := by
  have hR : Machine.Admits outside (Unanswered outside place) := admits_unanswered
  refine ⟨fun id all includePending baseUrl headless hc => ?_, fun id notes baseUrl headless hc => ?_⟩
  · obtain ⟨m₁, hlearns, hrun⟩ := run_of_command outside m hc
    have hbefore := hR.learns hlearns
    have hafter : m₁.Edited outside place ((run args).run outside m).2 := by
      rcases hrun with ⟨name, level, fault, hrun⟩ | hrun <;> rw [hrun]
      · exact leaves_refuse edited_printed _ fault m₁
      · exact edited_runTest hplace _ _ _ m₁
    have hedited := trans_of (Machine.Edited outside place) hbefore.edited hafter
    refine ⟨hedited, hedited.sameFile, ?_⟩
    rcases hrun with ⟨name, level, fault, hrun⟩ | hrun <;> rw [hrun]
    · exact tests_refuse (onlyErrors_logError name level) hbefore _ _ _ fault
    · exact (tests_runTest hplace _ _ _).of_unanswered hbefore
  · obtain ⟨m₁, hlearns, ⟨name, level, fault, hrun⟩ | hrun⟩ := run_of_command outside m hc <;>
      rw [hrun]
    · exact runs_refuse (hR.learns hlearns) (onlyErrors_logError name level) fault
    · have hat₁ := hat.of_setting (hR.learns hlearns).edited.setting
      exact (runs_verify hplace _ hat₁ id notes).of_unanswered (hR.learns hlearns)

end CommandLine

/-! ## Verdicts in a shop -/

namespace Shop

open CommandLine (Executes Runs Verified optionsAndFeature)

theorem sameFile_idle {place : Place} {effect : Place → Surroundings → Surroundings}
    (h : Machine.Does idle effect) (directory : Place) (s : Surroundings) :
    FileTree.SameFile place s.files (effect directory s).files := by
  rcases h with ⟨history, l⟩ | ⟨history, argv⟩ | ⟨history, call⟩ <;>
    exact refl_of (FileTree.SameFile place) s.files

theorem keepsProjectAt_withFile (t : Text) : (withFile t).KeepsProjectAt projectFile :=
  keepsProjectAt_machine _

theorem code_verify_errands :
    ((CommandLine.run ["verify", "a"]).run idle (withFile errandsText)).1.toOption = some 0 := by
  decide +kernel

/-- The test of an errand leaves the project file as it is, and its verification accepts it. -/
theorem run_verdicts_errands :
    (withFile errandsText).files.SameFile projectFile
      ((CommandLine.run ["test", "a"]).run idle (withFile errandsText)).2.files ∧
    ((CommandLine.run ["verify", "a"]).run idle (withFile errandsText)).1.toOption = some 0 ∧
    Runs idle projectFile "verify" (Executes idle (optionsAndFeature {} "a")
      fun options f => Run.feature options.gateway f options) FeatureReport.toValue
      (Verified idle projectFile "a" none) (withFile errandsText)
      ((CommandLine.run ["verify", "a"]).run idle (withFile errandsText)) := by
  have htest : CommandLine.command? ["test", "a"] = some (.test (some "a") false false none none) := by
    decide +kernel
  have hverify : CommandLine.command? ["verify", "a"] = some (.verify "a" none none none) := by
    decide +kernel
  have hends : Place.EndsAsProject projectFile := rfl
  have hat := keepsProjectAt_withFile errandsText
  obtain ⟨htests, -⟩ := CommandLine.run_verdicts idle _ hends hat ["test", "a"]
  obtain ⟨-, hverifies⟩ := CommandLine.run_verdicts idle _ hends hat ["verify", "a"]
  obtain ⟨-, hsame, -⟩ := htests _ _ _ _ _ htest
  exact ⟨hsame fun effect hdoes => sameFile_idle hdoes, code_verify_errands,
    hverifies _ _ _ _ hverify⟩

end Shop

end Acceptance
