import Acceptance.Proofs.StepTexts
import Acceptance.Proofs.Task
import Acceptance.Run.Feature

/-! # Texts of reports

What a test reports is made of the texts of its feature and of its options, and of what programs
printed, which is decoded so that it can be encoded again. -/

namespace Acceptance

/-! ## What can be encoded -/

/-- What is told of the fault can be encoded. -/
def Fault.Encodes (fault : Fault) : Prop := Text.Encodes fault.message

/-- What a command told can be encoded. -/
structure CommandResult.Encodes (r : CommandResult) : Prop where
  output : Text.Encodes r.output
  error : ∀ t ∈ r.error, Text.Encodes t

/-- The browser is a program, and its name can be encoded. -/
def Gateway.Encodes : Gateway → Prop
  | .direct _ => False
  | .program binary _ _ => Text.Encodes binary

structure Credentials.Encodes (c : Credentials) : Prop where
  studentIdField : Text.Encodes c.studentIdField
  studentId : Text.Encodes c.studentId
  passwordField : Text.Encodes c.passwordField
  password : Text.Encodes c.password
  submitButton : Text.Encodes c.submitButton

structure Performer.Encodes (p : Performer) : Prop where
  gateway : p.gateway.Encodes
  baseUrl : Text.Encodes p.baseUrl
  routes : p.routes.Encodes
  credentials : p.credentials.Encodes

/-- The error of a failed step can be encoded. -/
def Outcome.Encodes (o : Outcome) : Prop := ∀ t ∈ o.error?, Text.Encodes t

/-- The texts of a feature that a test uses can be encoded. -/
structure Feature.Encodes (f : Feature) : Prop where
  id : Text.Encodes f.id
  description : Text.Encodes f.description
  steps : ∀ step ∈ f.steps, Text.Encodes step
  testData : ∀ i ∈ f.testData, i.Encodes

/-- All that a run is told by its options can be encoded. -/
structure Options.Encodes (o : Options) : Prop where
  baseUrl : Text.Encodes o.baseUrl
  screenshots : ∀ directory ∈ o.screenshots, directory.Encodes
  routes : o.routes.Encodes
  credentials : o.credentials.Encodes
  binary : Text.Encodes o.binary

structure StepReport.Encodes (r : StepReport) : Prop where
  step : Text.Encodes r.step
  outcome : r.outcome.Encodes

structure FeatureReport.Encodes (r : FeatureReport) : Prop where
  featureId : Text.Encodes r.featureId
  description : Text.Encodes r.description
  steps : ∀ step ∈ r.steps, step.Encodes
  error : ∀ t ∈ r.error, Text.Encodes t
  screenshots : ∀ t ∈ r.screenshots, Text.Encodes t

/-! ## Programs -/

namespace ChildProcess

variable {argv : List Text}

theorem encodes_line (hargv : ∀ arg ∈ argv, Text.Encodes arg) : Text.Encodes (line argv) :=
  (Path.encodes_joinWith (Text.encodes_of " ") argv).mpr hargv

theorem encodes_timedOut (hargv : ∀ arg ∈ argv, Text.Encodes arg) (timeout : Int) (child : Child)
    {output : Text} (houtput : Text.Encodes output) :
    (timedOut argv timeout child output).Encodes :=
  ⟨houtput, by simp [timedOut, encodes_line hargv]⟩

theorem encodes_ended (hargv : ∀ arg ∈ argv, Text.Encodes arg) (child : Child)
    {output errors : Text} (houtput : Text.Encodes output) (herrors : Text.Encodes errors) :
    (ended argv child output errors).Encodes := by
  unfold ended
  split
  · exact ⟨houtput, by simp⟩
  · refine ⟨houtput, ?_⟩
    dsimp only
    split <;> simp [encodes_line hargv, herrors.trim]

end ChildProcess

/-! ## Steps -/

namespace Performer

theorem encodes_errorText {error : Option Text} (h : ∀ t ∈ error, Text.Encodes t) :
    Text.Encodes (errorText error) := by
  cases error with
  | none => exact Text.encodes_of _
  | some t => exact h t rfl

theorem encodes_outcomeOf {result : CommandResult} (hresult : result.Encodes) {start : Text}
    (hstart : Text.Encodes start) : (outcomeOf result start).Encodes := by
  unfold outcomeOf Outcome.Encodes
  split
  · simp [Outcome.error?]
  · simp [Outcome.error?, hstart, encodes_errorText hresult.error]

theorem encodes_passed : Outcome.passed.Encodes := by simp [Outcome.Encodes, Outcome.error?]

theorem encodes_notFound (target : Text) : (notFound target).Encodes := by
  simp [Outcome.Encodes, notFound, Outcome.error?]

theorem encodes_resolveUrl {p : Performer} (hp : p.Encodes) {target : Text} (htarget : Text.Encodes target) :
    Text.Encodes (p.resolveUrl target) := by
  unfold resolveUrl
  split
  · exact htarget
  · have hbase : Text.Encodes (Evidence.withoutSlashes p.baseUrl) := hp.baseUrl.trimRightWhere _
    simp [hbase, htarget.trimLeftWhere]

theorem encodes_selectorText {field : Text} (h : Text.Encodes field) :
    Text.Encodes (Attempt.selectorText field) := by
  intro c hc
  obtain ⟨d, hd, hc⟩ := List.mem_flatMap.mp hc
  unfold Attempt.escaped at hc
  split at hc
  · rcases List.mem_cons.mp hc with rfl | hc
    · exact CodePoint.isSurrogate_ofChar _
    · exact List.mem_singleton.mp hc ▸ h d hd
  · exact List.mem_singleton.mp hc ▸ h d hd

end Performer

/-! ## Features -/

namespace Run

variable {f : Feature} {options : Options}

/-- The reports can be encoded, and so can the error of the last. -/
structure Progress.Encodes (progress : Progress) : Prop where
  reports : ∀ report ∈ progress.reports, report.Encodes
  error : ∀ t ∈ progress.error, Text.Encodes t

theorem encodes_planned (hf : f.Encodes) : ∀ step ∈ planned f, Text.Encodes step := by
  unfold planned
  split
  · simp [genericStep]
  · exact hf.steps

/-- What happened while the session was open can be told. -/
structure Visit.Encodes (v : Visit) : Prop where
  progress : v.progress.Encodes
  capture : Task.Comes (fun shot => ∀ t ∈ shot, Text.Encodes t) Fault.Encodes v.capture

theorem encodes_unexpected {fault : Fault} (h : fault.Encodes) : Text.Encodes (unexpected fault) := by
  simp only [unexpected, Text.encodes_append, Text.encodes_of, true_and]
  exact h

theorem encodes_visitReport (hf : f.Encodes) {v : Visit} (hv : v.Encodes) :
    (visitReport f v).Encodes where
  featureId := hf.id
  description := hf.description
  steps := hv.progress.reports
  error := by
    have hcapture := hv.capture
    unfold visitReport
    dsimp only
    split
    · exact hv.progress.error
    next fault heq =>
      rw [heq] at hcapture
      simpa using encodes_unexpected hcapture
  screenshots := by
    have hcapture := hv.capture
    unfold visitReport
    dsimp only
    split
    next path heq =>
      rw [heq] at hcapture
      simpa using hcapture path rfl
    next => simp

theorem encodes_closedReport (hf : f.Encodes) {fault : Fault} (hfault : fault.Encodes) :
    (closedReport f fault).Encodes where
  featureId := hf.id
  description := hf.description
  steps := by simp [closedReport]
  error := by
    unfold closedReport
    dsimp only
    split
    · exact fun t ht => Option.some.inj ht ▸ hfault
    · exact fun t ht => Option.some.inj ht ▸ encodes_unexpected hfault
  screenshots := by simp [closedReport]

theorem encodes_missingReport (hf : f.Encodes) : (missingReport f).Encodes where
  featureId := hf.id
  description := hf.description
  steps := by simp [missingReport]
  error := by simp [missingReport, dependencyMissingError]
  screenshots := by simp [missingReport]

theorem encodes_performer (ho : options.Encodes) :
    (options.performer options.gateway).Encodes :=
  ⟨ho.binary, ho.baseUrl, ho.routes, ho.credentials⟩

end Run

end Acceptance
