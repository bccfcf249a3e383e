import Acceptance.Proofs.Commands

/-! # Tests and the project file

A test writes a record of its run beside the project file. A verification that passes accepts the
feature as well, and says so. -/

namespace Acceptance

variable {outside : Outside} {place : Place} {m m' : Machine}

/-! ## Names of records -/

namespace RunId

theorem forall_mem_ofNat {Q : CodePoint → Prop} {n : Nat} (hstart : ∀ c ∈ start, Q c)
    (halphabet : ∀ c ∈ alphabet, Q c) : ∀ c ∈ ofNat n, Q c := by
  have hdigit : ∀ k : Nat, Q (alphabet.getD k '0') := by
    intro k
    rw [List.getD_eq_getElem?_getD]
    cases hk : alphabet[k]? with
    | none => exact halphabet _ (by decide)
    | some c => exact halphabet c (List.mem_of_getElem? hk)
  have hdigits : ∀ count n, ∀ c ∈ digits n count, Q c := by
    intro count
    induction count with
    | zero => simp [digits]
    | succ count ih =>
      intro n
      rw [digits]
      exact List.forall_mem_append.mpr ⟨ih _, List.forall_mem_singleton.mpr (hdigit _)⟩
  exact List.forall_mem_append.mpr ⟨hstart, hdigits 26 n⟩

theorem mem_ofNat {n : Nat} {c : CodePoint} (h : c ∈ ofNat n) : c.val < 0x80 ∧ c ≠ '/' :=
  forall_mem_ofNat (Q := fun c => c.val < 0x80 ∧ c ≠ '/') (by decide) (by decide) c h

theorem encodes_ofNat (n : Nat) : Text.Encodes (ofNat n) := by
  intro c hc
  have hval := (mem_ofNat hc).1
  simp only [CodePoint.isSurrogate, Bool.and_eq_false_iff, decide_eq_false_iff_not]
  omega

theorem gives_next : next.Gives outside fun t => ∃ n, t = ofNat n := by
  refine Task.gives_bind (Task.gives_true _) fun _ _ => ?_
  intro m t ht
  exact ⟨m.runs, (Except.ok.inj ht).symm⟩

/-- The file of a run's record. -/
def fileName (n : Nat) : Text := ofNat n ++ ".json"

theorem isName_fileName (n : Nat) : Place.IsName (fileName n) := by
  have hmem : ∀ c ∈ fileName n, c.val < 0x80 ∧ c ≠ '/' := by
    intro c hc
    rcases List.mem_append.mp hc with hc | hc
    · exact mem_ofNat hc
    · have hall : ∀ c ∈ (".json" : Text), c.val < 0x80 ∧ c ≠ '/' := by decide
      exact hall c hc
  have hhead : (fileName n).head? = some 'r' := rfl
  refine Place.isName_of_ascii (fun c hc => (hmem c hc).1) (fun hslash => (hmem _ hslash).2 rfl)
    ?_ ?_ ?_
  · intro h
    rw [h] at hhead
    exact absurd hhead (by simp)
  · intro h
    rw [h] at hhead
    exact absurd hhead (by decide)
  · intro h
    rw [h] at hhead
    exact absurd hhead (by decide)

theorem fileName_ne (n : Nat) : fileName n ≠ Text.of "features.json" := by
  intro h
  have hhead : (fileName n).head? = some 'r' := rfl
  rw [h] at hhead
  exact absurd hhead (by decide)

end RunId

namespace CommandLine

/-! ## Records of runs -/

theorem spares_writeRun (hplace : place.EndsAsProject) (n : Nat) (command : Text)
    (options : Options) (result : Value) :
    (writeRun (RunId.ofNat n) command options result).Leaves outside (Machine.Spares place) := by
  refine Task.leaves_bind Layout.asks_runsDirectory.leaves fun directory => ?_
  refine Task.leaves_bind (Task.spares_ensureDirectory directory) fun _ => ?_
  refine Task.leaves_bind Layout.asks_now.leaves fun now => ?_
  refine Task.leaves_bind (fun m => ?_) fun _ => Task.leaves_pure _
  exact Project.spares_writeDocument
    (hplace.ne_child (RunId.isName_fileName n) (RunId.fileName_ne n) m.directory directory) _

theorem learns_optionsAndFeature (given : Options.Given) (id : Text) :
    (optionsAndFeature given id).Leaves outside Machine.Learns :=
  Task.leaves_bind (Options.learns_load given) fun _ =>
    Task.leaves_bind (Project.leaves_feature _) fun _ => Task.leaves_pure _

theorem learns_optionsAndFeatures (given : Options.Given) :
    (optionsAndFeatures given).Leaves outside Machine.Learns :=
  Task.leaves_bind (Options.learns_load given) fun _ =>
    Task.leaves_bind Project.leaves_allFeatures fun _ => Task.leaves_pure _

/-- A test does what its run does, writes the record of the run and prints. -/
theorem leaves_runTest {R : Machine → Machine → Prop} [IsPreorder Machine R]
    (hR : Machine.Admits outside R) (hprint : ∀ m t, R m (printed m t))
    (hwrite : ∀ n command options result,
      (writeRun (RunId.ofNat n) command options result).Leaves outside R)
    (id : Option Text) (all : Bool) (given : Options.Given) :
    (runTest id all given).Leaves outside R := by
  have hone : ∀ id, (runTestOne given id).Leaves outside R := by
    intro id
    refine leaves_prepared hprint _
      ((learns_optionsAndFeature given id).mono fun _ _ h => hR.learns h) ?_
    rintro ⟨options, feature⟩
    refine Task.leaves_bind_of_gives (RunId.leaves_next hR) RunId.gives_next ?_
    rintro runId ⟨n, rfl⟩
    refine Task.leaves_bind (Task.leaves_startClock hR) fun _ => ?_
    refine Task.leaves_bind (Run.leaves_feature hR _ _ _) fun report => ?_
    exact Task.leaves_bind (hwrite n _ _ _) fun runPath => leaves_emit hprint _
  have hall : (runTestAll given).Leaves outside R := by
    refine leaves_prepared hprint _
      ((learns_optionsAndFeatures given).mono fun _ _ h => hR.learns h) ?_
    rintro ⟨options, features⟩
    refine Task.leaves_bind_of_gives (RunId.leaves_next hR) RunId.gives_next ?_
    rintro runId ⟨n, rfl⟩
    refine Task.leaves_bind (Task.leaves_startClock hR) fun _ => ?_
    refine Task.leaves_bind (Run.leaves_batch hR _ _ _) fun report => ?_
    exact Task.leaves_bind (hwrite n _ _ _) fun runPath => leaves_emit hprint _
  unfold runTest
  split
  · exact leaves_emit hprint _
  · exact leaves_emit hprint _
  · exact hone _
  · exact hall

theorem spares_runTest (houtside : outside.Spares place) (hplace : place.EndsAsProject)
    (id : Option Text) (all : Bool) (given : Options.Given) :
    (runTest id all given).Leaves outside (Machine.Spares place) :=
  leaves_runTest (Machine.admits_spares houtside) spares_printed
    (fun n _ _ _ => spares_writeRun hplace n _ _ _) id all given

end CommandLine

/-! ## Reports of features that passed -/

namespace Run

/-- Without an error, all steps were among those to be carried out, and passed. -/
def AllPassed (list : List Text) (p : Progress) : Prop :=
  p.error = none → ∀ r ∈ p.reports, r.step ∈ list ∧ r.outcome = .passed

theorem gives_steps (perform : Text → Task Outcome) (number : Nat) (list : List Text) :
    (steps perform number list).Gives outside (AllPassed list) := by
  induction list generalizing number with
  | nil => exact Task.gives_pure fun _ => by simp
  | cons step rest ih =>
    refine Task.gives_bind (Task.gives_true _) fun result _ => ?_
    dsimp only
    split
    · exact Task.gives_pure fun h => absurd h (by simp)
    next hpassed =>
      refine Task.gives_bind (ih (number + 1)) fun later hlater => Task.gives_pure fun hnone => ?_
      intro r hr
      rcases List.mem_cons.mp hr with rfl | hr
      · exact ⟨List.mem_cons_self, hpassed⟩
      · obtain ⟨hstep, houtcome⟩ := hlater hnone r hr
        exact ⟨List.mem_cons_of_mem step hstep, houtcome⟩

/-- What the report of a feature says when it passed. -/
structure Passed (f : Feature) (report : FeatureReport) : Prop where
  featureId : report.featureId = f.id
  description : report.description = f.description
  error : report.error = none
  screenshots : report.screenshots = []
  steps : ∀ r ∈ report.steps, r.step ∈ planned f ∧ r.outcome = .passed

theorem gives_visit (outside : Outside) (p : Performer) (f : Feature) (options : Options) :
    (visit p f options).Gives outside fun v =>
      AllPassed (planned f) v.progress ∧ (v.progress.error = none → v.capture = .ok none) := by
  refine Task.gives_bind (gives_steps _ _ _) fun progress hprogress => ?_
  split
  · exact Task.gives_pure ⟨hprogress, fun _ => rfl⟩
  next error herror =>
    refine Task.gives_bind (Task.gives_true _) fun capture _ => Task.gives_pure ⟨hprogress, ?_⟩
    intro hnone
    rw [hnone] at herror
    exact absurd herror (by simp)

theorem gives_opened {α : Type} {P : α → Prop} {body : Task α} (s : Session) (url : Text)
    (headless : Bool) (h : body.Gives outside P) :
    (s.opened url headless body).Gives outside P := by
  intro m a ha
  rcases hopen : (s.open url headless).run outside m with ⟨fault | r, m₁⟩
  · rw [Session.opened_of_error body hopen] at ha
    exact absurd ha (by simp)
  · rw [Session.opened_of_ok body hopen] at ha
    exact h m₁ a ha

theorem gives_feature (g : Gateway) (f : Feature) (options : Options) :
    (feature g f options).Gives outside fun report => report.passed = true → Passed f report := by
  refine Task.gives_bind (Task.gives_true _) fun ready _ => ?_
  split
  · refine Task.gives_bind (Task.gives_true _) fun _ _ => ?_
    intro m report hreport hpassed
    rw [Task.run_attempt_bind] at hreport
    have hvisit := gives_opened (options.session g) options.baseUrl options.headless
      (gives_visit outside (options.performer g) f options) m
    rcases hrun : (((options.session g).opened options.baseUrl options.headless
      (visit (options.performer g) f options)).run outside m).1 with fault | v
    · rw [hrun] at hreport
      rw [← Except.ok.inj hreport] at hpassed
      exact absurd hpassed (by simp [closedReport])
    · obtain ⟨hsteps, hcapture⟩ := hvisit v hrun
      rw [hrun] at hreport
      obtain rfl := Except.ok.inj hreport
      have hnone : v.progress.error = none := by simpa [visitReport] using hpassed
      have hok := hcapture hnone
      refine ⟨rfl, rfl, ?_, ?_, hsteps hnone⟩
      · simp [visitReport, hok, hnone]
      · simp [visitReport, hok]
  · refine Task.gives_pure fun hpassed => ?_
    exact absurd hpassed (by simp [missingReport])

end Run

namespace CommandLine

/-! ## Answers of verifications -/

theorem sendable_report {f : Feature} {report : FeatureReport} (h : Run.Passed f report)
    (hid : Text.Encodes f.id) (hdescription : Text.Encodes f.description)
    (hsteps : ∀ t ∈ f.steps, Text.Encodes t) : Json.Sendable 3 report.toValue := by
  have hplanned : ∀ t ∈ Run.planned f, Text.Encodes t := by
    unfold Run.planned
    split
    · intro t ht
      rw [List.mem_singleton.mp ht]
      exact Text.encodes_of_all rfl
    · exact hsteps
  have hreport : ∀ r ∈ report.steps, Json.Sendable 1 r.toValue := by
    intro r hr
    obtain ⟨hstep, houtcome⟩ := h.steps r hr
    unfold StepReport.toValue
    rw [houtcome]
    refine Json.sendable_record rfl fun field hfield => ?_
    simp only [List.mem_cons, List.not_mem_nil, or_false] at hfield
    rcases hfield with rfl | rfl | rfl
    · exact Json.sendable_text (hplanned _ hstep)
    · exact Json.sendable_bool _
    · exact Json.sendable_null
  unfold FeatureReport.toValue
  rw [h.featureId, h.description, h.error, h.screenshots]
  refine Json.sendable_record rfl fun field hfield => ?_
  simp only [List.mem_cons, List.not_mem_nil, or_false] at hfield
  rcases hfield with rfl | rfl | rfl | rfl | rfl | rfl
  · exact Json.sendable_text hid
  · exact Json.sendable_text hdescription
  · refine Json.sendable_list fun v hv => ?_
    obtain ⟨r, hr, rfl⟩ := List.mem_map.mp hv
    exact hreport r hr
  · exact Json.sendable_bool _
  · exact Json.sendable_null
  · exact Json.sendable_texts (by simp)

theorem sendable_verified {f : Feature} {report : FeatureReport} (h : Run.Passed f report)
    (hpassed : report.passed = true) (hid : Text.Encodes f.id)
    (hdescription : Text.Encodes f.description) (hsteps : ∀ t ∈ f.steps, Text.Encodes t)
    (n : Nat) {runPath : Text} (hpath : Text.Encodes runPath) {progress : Value}
    (hprogress : Json.Sendable 3 progress) :
    Json.Sendable 5 (featureEnvelope "verify" (RunId.ofNat n) runPath report
      [("marked_done", .bool true), ("progress", progress)]).toValue := by
  unfold featureEnvelope
  rw [if_pos hpassed]
  refine Envelope.sendable_okWith (Text.encodes_of_all rfl) ?_ ?_
  · refine Json.sendable_record rfl fun field hfield => ?_
    simp only [List.cons_append, List.nil_append, List.mem_cons, List.not_mem_nil, or_false]
      at hfield
    rcases hfield with rfl | rfl | rfl | rfl
    · exact Json.sendable_text (RunId.encodes_ofNat n)
    · exact sendable_report h hid hdescription hsteps
    · exact Json.sendable_bool true
    · exact hprogress
  · intro a ha
    have hone : runArtifacts runPath [report] =
        [{ path := runPath, mime := "application/json", purpose := "e2e.run" }] := by
      unfold runArtifacts screenshotArtifacts
      rw [List.flatMap_cons, h.screenshots]
      rfl
    rw [hone, List.mem_singleton] at ha
    rw [ha]
    refine Json.sendable_record rfl fun field hfield => ?_
    simp only [List.mem_cons, List.not_mem_nil, or_false] at hfield
    rcases hfield with rfl | rfl | rfl | rfl
    · exact Json.sendable_text hpath
    · exact Json.sendable_text (Text.encodes_of_all rfl)
    · exact Json.sendable_text (Text.encodes_of_all rfl)
    · exact Json.sendable_null

end CommandLine

/-! ## Verifications -/

/-- The path of the project file can be encoded, if it is known. -/
def Machine.NamesProject (m : Machine) : Prop :=
  ∀ outside p, (Layout.featuresFile.run outside m).1 = .ok p → Text.Encodes p.toText

theorem Machine.NamesProject.of_setting (h : m.NamesProject) (hsetting : m'.setting = m.setting) :
    m'.NamesProject := by
  intro outside p hp
  rw [Layout.asks_featuresFile.run outside hsetting] at hp
  exact h outside p hp

namespace Layout

/-- The records of runs are beside the project file. -/
theorem runsDirectory_eq {p : Path} (h : (runsDirectory.run outside m).1 = .ok p) :
    ∃ root, (featuresFile.run outside m).1 = .ok (featuresFileOf root) ∧
      p = (agentDirectoryOf root).child "runs" := by
  unfold runsDirectory agentDirectory at h
  unfold featuresFile
  rw [Task.run_bind_assoc, Task.run_bind, asks_projectDirectory.run_self] at h
  rw [Task.run_bind, asks_projectDirectory.run_self]
  rcases hroot : (projectDirectory.run outside m).1 with fault | root
  · rw [hroot] at h
    exact absurd h (by simp)
  · rw [hroot] at h
    exact ⟨root, rfl, (Except.ok.inj h).symm⟩

end Layout

namespace CommandLine

variable {register : List Item}

theorem encodes_writeRun (h : m.NamesProject) {n : Nat} {command : Text} {options : Options}
    {result : Value} {t : Text}
    (hrun : (writeRun (RunId.ofNat n) command options result).run outside m = (.ok t, m')) :
    Text.Encodes t := by
  have hruns : Place.IsName "runs" := Place.isName_of_plain (by decide)
  have hfile : Place.IsName "features.json" := Place.isName_of_plain (by decide)
  have hjson : Text.Encodes (RunId.fileName n) :=
    Text.encodes_append.mpr ⟨RunId.encodes_ofNat n, Text.encodes_of_all rfl⟩
  unfold writeRun at hrun
  rw [Task.run_bind, Layout.asks_runsDirectory.run_self] at hrun
  rcases hdirectory : (Layout.runsDirectory.run outside m).1 with fault | directory
  · rw [hdirectory] at hrun
    exact absurd (Prod.mk.inj hrun).1 (by simp)
  rw [hdirectory] at hrun
  obtain ⟨-, m₁, -, hrun⟩ := Task.run_bind_eq_ok hrun
  obtain ⟨now, m₂, -, hrun⟩ := Task.run_bind_eq_ok hrun
  obtain ⟨-, m₃, -, hrun⟩ := Task.run_bind_eq_ok hrun
  obtain ⟨root, hfeatures, rfl⟩ := Layout.runsDirectory_eq hdirectory
  rw [← Except.ok.inj (Prod.mk.inj hrun).1]
  have hpath := (Path.encodes_child hfile).mp (Path.encodes_toText.mp (h outside _ hfeatures))
  exact Path.encodes_toText.mpr ((Path.encodes_child (RunId.isName_fileName n)).mpr
    ⟨(Path.encodes_child hruns).mpr ⟨hpath.1, Text.encodes_of_all rfl⟩, hjson⟩)

theorem isOk_featureEnvelope (command runId runPath : Text) (report : FeatureReport)
    (extra : List (Text × Value)) :
    (featureEnvelope command runId runPath report extra).isOk = report.passed := by
  unfold featureEnvelope
  split
  next hpassed => rw [hpassed]; rfl
  next hpassed => rw [Bool.eq_false_iff.mpr hpassed]; rfl

theorem encodes_optionsAndFeature (h : m.Records place register) (hat : m.KeepsProjectAt place)
    {given : Options.Given} {id : Text} {options : Options} {f : Feature}
    (hrun : (optionsAndFeature given id).run outside m = (.ok (options, f), m')) :
    Text.Encodes f.id ∧ Text.Encodes f.description ∧ ∀ t ∈ f.steps, Text.Encodes t := by
  obtain ⟨options', m₁, hload, hrun⟩ := Task.run_bind_eq_ok hrun
  obtain ⟨f', m₂, hfeature, hrun⟩ := Task.run_bind_eq_ok hrun
  obtain ⟨-, rfl⟩ := Prod.mk.inj (Except.ok.inj (Prod.mk.inj hrun).1)
  have hspares : m.Spares place ((Options.load given).run outside m).2 := Options.spares_load given m
  rw [hload] at hspares
  rcases Project.feature_record outside (h.of_spares hspares)
    (hat.of_setting hspares.setting) id with ⟨fault, hfault⟩ | ⟨f'', hfound, hencodes⟩
  · rw [hfault] at hfeature
    exact absurd (Prod.mk.inj hfeature).1 (by simp)
  · rw [hfound] at hfeature
    obtain rfl := Except.ok.inj (Prod.mk.inj hfeature).1
    exact hencodes

/-- A verification that passes accepts its feature; any other leaves the record as it is. -/
theorem settled_verify (houtside : outside.Spares place) (hplace : place.EndsAsProject)
    (h : m.Records place register) (hat : m.KeepsProjectAt place) (hnames : m.NamesProject)
    (id : Text) (notes : Option Text) (given : Options.Given) :
    Settled m place register notes.toList (Accepted register id)
      ((runVerify id notes given).run outside m) := by
  refine settled_prepared h
    ((learns_optionsAndFeature given id).mono fun _ _ h => h.spares) (onlyErrors_projectError _ _) ?_
  rintro ⟨options, f⟩ m₁ hrun hsetting₁ hrecords₁
  obtain ⟨hid, hdescription, hsteps⟩ := encodes_optionsAndFeature h hat hrun
  have hR := Machine.admits_spares houtside
  refine settled_bind hrecords₁ (RunId.leaves_next hR) fun runId m₂ hnext hsetting₂ hrecords₂ => ?_
  obtain ⟨n, rfl⟩ := RunId.gives_next m₁ runId (congrArg Prod.fst hnext)
  refine settled_bind hrecords₂ (Task.leaves_startClock hR) fun _ m₃ _ hsetting₃ hrecords₃ => ?_
  refine settled_bind hrecords₃ (Run.leaves_feature hR _ _ _)
    fun report m₄ hreport hsetting₄ hrecords₄ => ?_
  have hsetting : m₄.setting = m.setting := by
    rw [hsetting₄, hsetting₃, hsetting₂, hsetting₁]
  refine settled_bind hrecords₄ (spares_writeRun hplace n _ _ _)
    fun runPath m₅ hwrite hsetting₅ hrecords₅ => ?_
  have hpath := encodes_writeRun (hnames.of_setting hsetting) hwrite
  cases hpassed : report.passed with
  | false =>
    have hextra : acceptIfPassed report id notes =
        pure [(Text.of "marked_done", Value.bool false)] := by
      unfold acceptIfPassed
      rw [if_neg (by simp [hpassed])]
    rw [hextra, Task.run_pure_bind]
    have herror := isOk_featureEnvelope "verify" (RunId.ofNat n) runPath report
      [(Text.of "marked_done", Value.bool false)]
    generalize featureEnvelope "verify" (RunId.ofNat n) runPath report
      [(Text.of "marked_done", Value.bool false)] = e at herror
    have hspares : m₅.Spares place ((emit e).run outside m₅).2 := spares_emit e m₅
    exact .refused (emit_error_ne outside m₅ (herror.trans hpassed)) hspares.setting
      (hrecords₅.of_spares hspares)
  | true =>
    have hreportPassed := Run.gives_feature _ f options m₃ report (congrArg Prod.fst hreport) hpassed
    have hmark := Project.markDone_record outside hrecords₅
      (hat.of_setting (hsetting₅.trans hsetting)) id notes
    unfold acceptIfPassed
    rw [if_pos hpassed, Task.run_bind_assoc]
    refine (settled_of_recorded hrecords₅ hmark ?_).mono ?_
    · rintro ⟨v, tally⟩ register' m' ⟨k, item, -, -, -, -, -, htally⟩
      have hsendable := sendable_verified hreportPassed hpassed hid hdescription hsteps n hpath
        (sendable_tallyProgress htally)
      obtain ⟨answer, hanswer⟩ := run_emit_of_sendable outside m' (hsendable.mono (by decide))
      refine ⟨answer, ?_⟩
      rw [Task.run_pure_bind, hanswer, isOk_featureEnvelope, hpassed]
      rfl
    · rintro register' ⟨answer, k, item, hitem, hid, hregister, -⟩
      exact ⟨k, item, hitem, hid, hregister⟩

end CommandLine

end Acceptance
