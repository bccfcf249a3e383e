import Acceptance.Proofs.Committing

/-! # Answers of tests

A test that can be set up gives a report, its record is written, and the answer tells of both. A
verification that passed accepts its feature in the project file that is still there. -/

namespace Acceptance

open Json (Encodable Printable)

variable {outside : Outside} {place : Place} {m m' : Machine} {n : Nat} {data : Entries}
  {entries : List Entries}

/-! ## Reports -/

theorem StepReport.Encodes.printable {r : StepReport} (h : r.Encodes) : Printable r.toValue := by
  refine Json.printable_record.mpr ?_
  simp only [List.forall_mem_cons, Text.encodes_of, true_and]
  exact ⟨Json.printable_text.mpr h.step, Json.printable_bool _,
    Json.printable_ofText?.mpr h.outcome, by simp⟩

theorem FeatureReport.Encodes.printable {r : FeatureReport} (h : r.Encodes) :
    Printable r.toValue := by
  have hsteps : Printable (.list (r.steps.map StepReport.toValue)) := by
    rw [Json.printable_list, List.forall_mem_map]
    exact fun step hstep => (h.steps step hstep).printable
  refine Json.printable_record.mpr ?_
  simp only [List.forall_mem_cons, Text.encodes_of, true_and]
  exact ⟨Json.printable_text.mpr h.featureId, Json.printable_text.mpr h.description, hsteps,
    Json.printable_bool _, Json.printable_ofText?.mpr h.error,
    Json.printable_texts.mpr h.screenshots, by simp⟩

/-- The report of a batch can be told: what its features report, its error and its counts. -/
structure BatchReport.Encodes (r : BatchReport) : Prop where
  results : ∀ report ∈ r.results, report.Encodes
  error : ∀ t ∈ r.error, Text.Encodes t
  total : Value.isLongInt r.total = false
  passed : Value.isLongInt r.passed = false
  failed : Value.isLongInt r.failed = false

theorem BatchReport.Encodes.printable_fields {r : BatchReport} (h : r.Encodes) :
    ∀ f ∈ r.fields, Text.Encodes f.1 ∧ Printable f.2 := by
  have hresults : Printable (.list (r.results.map FeatureReport.toValue)) := by
    rw [Json.printable_list, List.forall_mem_map]
    exact fun report hreport => (h.results report hreport).printable
  unfold BatchReport.fields
  simp only [List.forall_mem_cons, Text.encodes_of, true_and]
  exact ⟨Json.printable_int h.total, Json.printable_int h.passed, Json.printable_int h.failed,
    hresults, Json.printable_ofText?.mpr h.error, by simp⟩

namespace CommandLine

variable {command runId runPath : Text} {options : Options} {result : Value}

theorem printable_runRecord (hrunId : Text.Encodes runId) (hcommand : Text.Encodes command)
    (hbase : Text.Encodes options.baseUrl) (hresult : Printable result) (now : Instant) :
    Printable (runRecord runId command now options result) := by
  refine Json.printable_record.mpr ?_
  simp only [List.forall_mem_cons, Text.encodes_of, true_and, Json.printable_text]
  exact ⟨hrunId, hcommand, Instant.encodes_toText now, hbase, Json.printable_bool _, hresult,
    by simp⟩

/-! ## Answers -/

theorem printable_runArtifacts {reports : List FeatureReport} (hpath : Text.Encodes runPath)
    (hreports : ∀ r ∈ reports, r.Encodes) :
    ∀ a ∈ runArtifacts runPath reports, Printable a.toValue := by
  refine List.forall_mem_cons.mpr ⟨?_, fun a ha => ?_⟩
  · exact Artifact.printable_toValue hpath (Text.encodes_of _) (Text.encodes_of _) Json.printable_null
  · obtain ⟨r, hr, ha⟩ := List.mem_flatMap.mp ha
    obtain ⟨path, hshot, rfl⟩ := List.mem_map.mp ha
    have hid := (hreports r hr).featureId
    exact Artifact.printable_toValue ((hreports r hr).screenshots path hshot) (Text.encodes_of _)
      (by simp [hid]) Json.printable_null

theorem printable_featureEnvelope {report : FeatureReport} {extra : List (Text × Value)}
    (hcommand : Text.Encodes command) (hrunId : Text.Encodes runId) (hpath : Text.Encodes runPath)
    (hreport : report.Encodes) (hextra : ∀ f ∈ extra, Text.Encodes f.1 ∧ Printable f.2) :
    Printable (featureEnvelope command runId runPath report extra).toValue := by
  have hdata : ∀ f ∈ [(Text.of "run_id", Value.text runId), (Text.of "result", report.toValue)] ++
      extra, Text.Encodes f.1 ∧ Printable f.2 := by
    refine List.forall_mem_append.mpr ⟨?_, hextra⟩
    simp [Json.printable_text, hrunId, hreport.printable]
  unfold featureEnvelope
  dsimp only
  split
  · exact Envelope.printable_okWith hcommand (Json.printable_record.mpr hdata)
      (printable_runArtifacts hpath (List.forall_mem_singleton.mpr hreport))
  · refine Envelope.printable_error hcommand ?_ (Json.printable_record.mpr ?_)
    · have hid := hreport.featureId
      have herror := hreport.error
      split
      · simp [hid]
      · simp [hid]
      next error _ heq => exact herror error heq
    · refine List.forall_mem_append.mpr ⟨hdata, List.forall_mem_singleton.mpr ?_⟩
      exact ⟨Text.encodes_of _, Json.printable_text.mpr hpath⟩

theorem printable_batchEnvelope {report : BatchReport} (hrunId : Text.Encodes runId)
    (hpath : Text.Encodes runPath) (hreport : report.Encodes) :
    Printable (batchEnvelope runId runPath report).toValue := by
  have hdata : ∀ f ∈ (Text.of "run_id", Value.text runId) :: report.fields,
      Text.Encodes f.1 ∧ Printable f.2 :=
    List.forall_mem_cons.mpr ⟨⟨Text.encodes_of _, Json.printable_text.mpr hrunId⟩,
      hreport.printable_fields⟩
  have hdetails : Printable (Value.record
      ((Text.of "run_id", Value.text runId) :: report.fields ++ pathEntry runPath)) := by
    refine Json.printable_record.mpr (List.forall_mem_append.mpr ⟨hdata, ?_⟩)
    exact List.forall_mem_singleton.mpr ⟨Text.encodes_of _, Json.printable_text.mpr hpath⟩
  unfold batchEnvelope
  dsimp only
  split
  next error herror =>
    exact Envelope.printable_error (Text.encodes_of _) (hreport.error error herror) hdetails
  · split
    · exact Envelope.printable_okWith (Text.encodes_of _) (Json.printable_record.mpr hdata)
        (printable_runArtifacts hpath hreport.results)
    · exact Envelope.printable_error (Text.encodes_of _) (by simp) hdetails

end CommandLine

/-! ## Setting up -/

section

variable {S : Entries → Prop}

namespace Project

variable (hfile : m.HasProjectFile place) (hsetting : m.setting.All Text.Encodes)
include hfile hsetting

/-- The settings do not matter for what project there is. -/
theorem load_cases_of_learns (hm : m.LearnsOf S m') (outside : Outside) :
    (∃ fault, load.run outside m' = (.error fault, m') ∧ fault.Expected) ∨
      ∃ data entries, m.Holds place data entries ∧ m'.Holds place data entries := by
  rcases load_cases (hfile.of_same hm.setting hm.files) (hm.setting ▸ hsetting) outside with
    hmissing | ⟨data, entries, h⟩
  · exact Or.inl hmissing
  · have hback : m'.Undisturbed place m := Machine.undisturbed_of_grown hm.setting.symm
      (by rw [hm.files]; exact refl_of FileTree.Grown _)
    exact Or.inr ⟨data, entries, h.of_undisturbed hback, h⟩

theorem meets_feature {id : Text} (hid : Text.Encodes id) :
    (feature (.text id)).Meets outside (m.LearnsOf S) (fun f => f.Encodes ∧
      ∃ data entries k e, m.Holds place data entries ∧
        locate (.text id) (entries.map .object) = .ok (k, e) ∧ e ∈ entries ∧
        f.id = Entry.idText e) Fault.Expected := by
  intro m' hm
  rcases load_cases_of_learns hfile hsetting hm outside with
    ⟨fault, hrun, hfault⟩ | ⟨data, entries, h, h'⟩
  · unfold feature
    rw [Task.run_bind_error hrun]
    exact ⟨hfault, hm⟩
  · rcases feature_cases h' id outside with ⟨f, k, e, hrun, hf⟩ | hrun <;> rw [hrun]
    · exact ⟨⟨hf.1, data, entries, k, e, h, hf.2⟩, hm⟩
    · exact ⟨hid, hm⟩

theorem meets_allFeatures :
    allFeatures.Meets outside (m.LearnsOf S) (fun features => ∃ data entries,
      m.Holds place data entries ∧ features.length = entries.length ∧
        ∀ f ∈ features, f.Encodes ∧ ∃ e ∈ entries, f.id = Entry.idText e) Fault.Expected := by
  intro m' hm
  rcases load_cases_of_learns hfile hsetting hm outside with
    ⟨fault, hrun, hfault⟩ | ⟨data, entries, h, h'⟩
  · unfold allFeatures
    rw [Task.run_bind_error hrun]
    exact ⟨hfault, hm⟩
  · obtain ⟨features, hrun, hfeatures⟩ := exists_allFeatures h' outside
    rw [hrun]
    exact ⟨⟨data, entries, h, hfeatures⟩, hm⟩

end Project

end

/-! ## Writing the record -/

/-- There is room for the record of the run, and its path can be taken, and no feature has an id
with that of the run in it. -/
structure Machine.TakesRecord (m : Machine) (place : Place) (n : Nat) (entries : List Entries) :
    Prop where
  room : m.HasRoom place n
  names : m.NamesRecord n
  ids : ∀ e ∈ entries, RunId.Apart n (Entry.idText e)

section

variable (hplain : m.setting.All (RunId.Apart n))
include hplain

/-- The screenshots of failures leave the project and the room for the record alone. -/
theorem Run.showsFailures {f : Feature} (hid : RunId.Apart n f.id) {options : Options}
    (hoptions : ∀ directory ∈ options.screenshots, directory.All (RunId.Apart n)) :
    ShowsFailures outside (m.Tended place n) f options := by
  refine (meets_screenshotPath (fun _ htended => htended.undisturbed.setting ▸ hplain)
    (RunId.ofPaths_apart n) hid hoptions).mono (fun path hpath => ⟨hpath.1, ?_⟩) fun _ h => h
  intro m₁ htended
  have hquiet : m₁.Quiet ((Task.ensureDirectory path.parent).run outside m₁).2 :=
    Task.quiet_ensureDirectory path.parent m₁
  have hsetting : m₁.setting.All (RunId.Apart n) := htended.undisturbed.setting ▸ hplain
  exact ⟨trans_of (Machine.Undisturbed place) htended.undisturbed
      (Machine.undisturbed_of_grown hquiet.setting hquiet.files),
    hquiet.printed.trans htended.printed,
    htended.room.ensureDirectory hsetting.directory hpath.2 outside⟩

variable (h : m.Holds place data entries) (hnames : m.NamesRecord n)
  (hclock : ∀ outside, ∃ now, (Layout.now.run outside m).1 = .ok now)
include h hnames hclock

theorem CommandLine.meets_writeRun {command : Text} {options : Options} {result : Value}
    (hrecord : ∀ now, Printable (runRecord (RunId.ofNat n) command now options result)) :
    (writeRun (RunId.ofNat n) command options result).Meets outside (m.Tended place n) Text.Encodes
      fun _ => False := by
  intro m₁ htended
  have hsame := htended.undisturbed.setting
  obtain ⟨now, hnow⟩ := hclock outside
  obtain ⟨runPath, m₂, hrun, hpath, hafter⟩ := run_writeRun
    (h.reaches.of_undisturbed htended.undisturbed)
    (hsame ▸ hplain.mono fun _ happart => happart.1) htended.room (hnames.of_setting hsame)
    ⟨now, (Layout.asks_now.answer_eq hsame).trans hnow⟩ hrecord
  rw [hrun]
  exact ⟨hpath, trans_of (Machine.Undisturbed place) htended.undisturbed hafter.undisturbed,
    hafter.printed.trans htended.printed, hafter.room⟩

namespace CommandLine

/-- A run that gives a report is recorded, and then what comes after it answers. -/
theorem replies_recorded {ρ : Type} {S : Entries → Prop} {Q : ρ → Prop} {run : Task ρ}
    {value : ρ → Value} {rest : Text → Text → ρ → Task Nat} {command : Text} {options : Options}
    (hn : n = m.runs + 1) (hroom : m.HasRoom place n) (hI : Machine.Steady outside (m.Tended place n))
    (hrun : run.Meets outside (m.Tended place n) Q fun _ => False)
    (hvalue : ∀ r, Q r → Printable (value r)) (hcommand : Text.Encodes command)
    (hoptions : options.Encodes)
    (hrest : ∀ runPath r, Text.Encodes runPath → Q r →
      Replies outside (m.Tended place n) m (rest (RunId.ofNat n) runPath r)) :
    Replies outside (m.LearnsOf S) m (do
      let runId ← RunId.next
      Task.startClock
      let report ← run
      let runPath ← writeRun runId command options (value report)
      rest runId runPath report) := by
  have hgoes : Replies outside (m.Tended place n) m (do
      Task.startClock
      let report ← run
      let runPath ← writeRun (RunId.ofNat n) command options (value report)
      rest (RunId.ofNat n) runPath report) := by
    refine replies_bind (Task.meets_startClock hI) fun _ _ => ?_
    refine replies_bind hrun fun report hreport => ?_
    refine replies_bind (meets_writeRun hplain h hnames hclock (printable_runRecord
      (RunId.encodes_ofNat n) hcommand hoptions.baseUrl (hvalue report hreport)))
      fun runPath hpath => ?_
    exact hrest runPath report hpath hreport
  -- The number is taken before anything is browsed, so the name of the record is settled.
  intro m₁ hm
  obtain ⟨⟨settings, rfl⟩, -⟩ := hm
  have hnext : RunId.next.run outside { m with settings } =
      (.ok (RunId.ofNat n), { m with settings, runs := n }) := by rw [hn]; rfl
  rw [Task.run_bind_ok hnext]
  exact hgoes _ ⟨⟨rfl, id, fun _ => id⟩, rfl, ⟨hroom.runs, hroom.record⟩⟩

end CommandLine

end

/-! ## Tests -/

namespace CommandLine

section

variable {S : Entries → Prop} (hfile : m.HasProjectFile place) (hconfigured : m.Configured S)
  (hplain : m.setting.All (RunId.Apart (m.runs + 1)))
  (husable : Settings.Usable m (RunId.Apart (m.runs + 1)) S)
  {given : Options.Given} (hgiven : ∀ t ∈ given.baseUrl, Text.Encodes t)
  (hshots : given.screenshots = none)

include hfile hconfigured hplain husable hgiven hshots

theorem meets_options : (Options.load given).Meets outside (m.LearnsOf S)
    (Options.Sound (RunId.Apart (m.runs + 1))) Fault.Expected := by
  have hroot : m.HasRoot := fun outside => by
    obtain ⟨root, -, hroot, -⟩ := hfile.exists_root outside
    exact ⟨root, hroot⟩
  exact (Options.meets_load hconfigured (RunId.ofPaths_apart _) hplain hroot husable hgiven
    hshots).mono (fun _ h => h) fun _ h => h.expected

theorem meets_optionsAndFeature {id : Text} (hid : Text.Encodes id) :
    (optionsAndFeature given id).Meets outside (m.LearnsOf S) (fun x =>
      x.1.Sound (RunId.Apart (m.runs + 1)) ∧ x.2.Encodes ∧ ∃ data entries k e,
        m.Holds place data entries ∧
        Project.locate (.text id) (entries.map .object) = .ok (k, e) ∧ e ∈ entries ∧
        x.2.id = Entry.idText e) Fault.Expected := by
  refine Task.meets_bind (meets_options hfile hconfigured hplain husable hgiven hshots)
    fun options hoptions => ?_
  refine Task.meets_bind (Project.meets_feature hfile (hplain.mono fun _ h => h.1) hid)
    fun f hf => ?_
  exact Task.meets_pure ⟨hoptions, hf⟩

theorem meets_optionsAndFeatures :
    (optionsAndFeatures given).Meets outside (m.LearnsOf S) (fun x =>
      x.1.Sound (RunId.Apart (m.runs + 1)) ∧ ∃ data entries, m.Holds place data entries ∧
        x.2.length = entries.length ∧
        ∀ f ∈ x.2, f.Encodes ∧ ∃ e ∈ entries, f.id = Entry.idText e) Fault.Expected := by
  refine Task.meets_bind (meets_options hfile hconfigured hplain husable hgiven hshots)
    fun options hoptions => ?_
  refine Task.meets_bind (Project.meets_allFeatures hfile (hplain.mono fun _ h => h.1))
    fun features hfeatures => ?_
  exact Task.meets_pure ⟨hoptions, hfeatures⟩

variable (htakes : ∀ data entries, m.Holds place data entries →
    m.TakesRecord place (m.runs + 1) entries)
  (hclock : ∀ outside, ∃ now, (Layout.now.run outside m).1 = .ok now)
  (hminds : outside.SparesProject m place) (herrors : outside.TellsErrors)

include htakes hclock hminds herrors

/-- A test of one feature answers, if what comes after its record does. -/
theorem replies_featureTest {command id : Text} (hcommand : Text.Encodes command)
    (hid : Text.Encodes id) {rest : Text → Text → FeatureReport → Task Nat}
    (hrest : ∀ data entries k e, m.Holds place data entries →
      Project.locate (.text id) (entries.map .object) = .ok (k, e) →
      ∀ runPath report, Text.Encodes runPath → FeatureReport.Encodes report →
        Replies outside (m.Tended place (m.runs + 1)) m
          (rest (RunId.ofNat (m.runs + 1)) runPath report)) :
    Replies outside (m.LearnsOf S) m
      (prepared (optionsAndFeature given id) (projectError? command · []) fun (options, feature) => do
        let runId ← RunId.next
        Task.startClock
        let report ← Run.feature options.gateway feature options
        let runPath ← writeRun runId command options report.toValue
        rest runId runPath report) := by
  refine replies_prepared (fun _ h => h.printed)
    (meets_optionsAndFeature hfile hconfigured hplain husable hgiven hshots hid)
    (fun _ hfault => tells_projectError hcommand (by simp) hfault) ?_
  rintro ⟨options, f⟩ ⟨ho, hf, data, entries, k, e, h, hlocate, he, hfid⟩
  have htakes := htakes data entries h
  have hI := Machine.steady_tended (n := m.runs + 1) hminds (h.reaches.endsAsProject outside)
  -- A screenshot is named for the feature, so it is not taken for the record of the run.
  have hshows : Run.ShowsFailures outside (m.Tended place (m.runs + 1)) f options :=
    Run.showsFailures hplain (hfid ▸ htakes.ids e he) ho.screenshots
  exact replies_recorded hplain h htakes.names hclock rfl htakes.room hI
    (Run.meets_feature hI herrors ho.encodes ho.binary hf hshows)
    (fun _ hreport => hreport.printable) hcommand ho.encodes
    fun runPath report hpath hreport => hrest data entries k e h hlocate runPath report hpath hreport

theorem replies_testOne {id : Text} (hid : Text.Encodes id) :
    Replies outside (m.LearnsOf S) m (runTestOne given id) := by
  refine replies_featureTest hfile hconfigured hplain husable hgiven hshots htakes hclock hminds
    herrors (Text.encodes_of _) hid fun _ _ _ _ _ _ runPath report hpath hreport => ?_
  exact replies_emit (fun _ h => h.printed) (printable_featureEnvelope (Text.encodes_of _)
    (RunId.encodes_ofNat _) hpath hreport (by simp))

theorem replies_testAll : Replies outside (m.LearnsOf S) m (runTestAll given) := by
  refine replies_prepared (fun _ h => h.printed)
    (meets_optionsAndFeatures hfile hconfigured hplain husable hgiven hshots)
    (fun _ hfault => tells_projectError (Text.encodes_of _) (by simp) hfault) ?_
  rintro ⟨options, features⟩ ⟨ho, data, entries, h, hlength, hfeatures⟩
  have htakes := htakes data entries h
  have hI := Machine.steady_tended (n := m.runs + 1) hminds (h.reaches.endsAsProject outside)
  have hall : ∀ f ∈ features, f.Encodes ∧
      Run.ShowsFailures outside (m.Tended place (m.runs + 1)) f options := by
    intro f hf
    obtain ⟨hencodes, e, he, hid⟩ := hfeatures f hf
    exact ⟨hencodes, Run.showsFailures hplain (hid ▸ htakes.ids e he) ho.screenshots⟩
  have hshort : ∀ count : Nat, count ≤ features.length → Value.isLongInt count = false :=
    fun count hcount => Value.isLongInt_mono ((hcount.trans hlength.le).trans (Nat.le_succ _))
      h.wellFormed.count
  have hbatch : (Run.batch options.gateway features options).Meets outside
      (m.Tended place (m.runs + 1)) BatchReport.Encodes fun _ => False :=
    (Run.meets_batch hI herrors ho.encodes ho.binary hall).mono
      (fun report hreport => ⟨hreport.1, hreport.2.1, hshort _ hreport.2.2.1,
        hshort _ hreport.2.2.2.1, hshort _ hreport.2.2.2.2⟩) fun _ hfault => hfault
  refine replies_recorded hplain h htakes.names hclock rfl htakes.room hI hbatch
    (fun _ hreport => Json.printable_record.mpr hreport.printable_fields) (Text.encodes_of _)
    ho.encodes fun runPath report hpath hreport => ?_
  exact replies_emit (fun _ h => h.printed)
    (printable_batchEnvelope (RunId.encodes_ofNat _) hpath hreport)

theorem replies_runTest {id : Option Text} (hid : ∀ t ∈ id, Text.Encodes t) (all : Bool) :
    Replies outside (m.LearnsOf S) m (runTest id all given) := by
  have hrefuse : ∀ message : Text, Text.Encodes message →
      Replies outside (m.LearnsOf S) m (refuseTest message) := fun message hmessage =>
    replies_emit (fun _ h => h.printed)
      (Envelope.printable_error (Text.encodes_of _) hmessage Json.printable_empty)
  unfold runTest
  split
  · exact hrefuse _ (Text.encodes_of _)
  · exact hrefuse _ (Text.encodes_of _)
  next t hfound =>
    exact replies_testOne hfile hconfigured hplain husable hgiven hshots htakes hclock hminds herrors
      (hid t (Option.filter_eq_some_iff.mp hfound).1)
  · exact replies_testAll hfile hconfigured hplain husable hgiven hshots htakes hclock hminds herrors

/-! ## Verifications -/

theorem replies_verify {id : Text} (hid : Text.Encodes id) {notes : Option Text}
    (hnotes : ∀ t ∈ notes, Text.Encodes t) :
    Replies outside (m.LearnsOf S) m (runVerify id notes given) := by
  refine replies_featureTest hfile hconfigured hplain husable hgiven hshots htakes hclock hminds
    herrors (Text.encodes_of _) hid
    fun data entries k e h hlocate runPath report hpath hreport m₁ htended => ?_
  have hanswered : ∀ extra : List (Text × Value), (∀ f ∈ extra, Text.Encodes f.1 ∧ Printable f.2) →
      ∀ m₂ : Machine, m₂.printed = m.printed → Answered m ((emit (featureEnvelope "verify"
        (RunId.ofNat (m.runs + 1)) runPath report extra)).run outside m₂) := by
    intro extra hextra m₂ hprinted
    exact (answered_emit outside m₂ (printable_featureEnvelope (Text.encodes_of _)
      (RunId.encodes_ofNat _) hpath hreport hextra)).of_printed hprinted
  -- The project file is the one that was loaded, so the feature is found in it once more.
  unfold acceptIfPassed
  split
  · have hclock₁ : ∀ outside, ∃ now, (Layout.now.run outside m₁).1 = .ok now := fun outside => by
      obtain ⟨now, hnow⟩ := hclock outside
      exact ⟨now, (Layout.asks_now.answer_eq htended.undisturbed.setting).trans hnow⟩
    obtain ⟨u, tally, content, executable, -, htally, hmark⟩ := Project.run_markDone_of_holds
      (h.of_undisturbed htended.undisturbed) hclock₁ hlocate hnotes outside
    rw [Task.run_bind_assoc, Task.run_bind_ok hmark]
    refine hanswered _ ?_ _ htended.printed
    simp [Json.printable_bool, printable_tallyProgress htally]
  · refine hanswered _ ?_ _ htended.printed
    simp [Json.printable_bool]

end

end CommandLine

end Acceptance
