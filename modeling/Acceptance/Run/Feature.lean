import Acceptance.Run.Install
import Acceptance.Run.Options
import Acceptance.Run.Report

/-! # Testing a feature

The steps of a feature are carried out one after the other in a session of their own, up to the
first that fails. The failure is shown in a screenshot, if one can be taken while the page is
still open.
-/

namespace Acceptance

namespace Run

/-! ## Steps -/

/-- The step that is reported for a feature without steps. -/
def genericStep : Text := "generic page check"

/-- How the steps went: a report for each that was carried out, and the error of the run if the last
of them failed. -/
structure Progress where
  reports : List StepReport
  error : Option Text
  deriving DecidableEq

/-- The error of a run whose step number `number` failed. -/
def stepError (number : Nat) (error : Text) : Text :=
  "Step " ++ Text.ofNat number ++ " failed: " ++ error

/-- The outcome of a step; a fault is a failure with its message. -/
def outcomeOf : Except Fault Outcome → Outcome
  | .ok outcome => outcome
  | .error fault => .failed fault.message

/-- Carries out steps up to the first that fails; `number` is the number of the first. -/
def steps (perform : Text → Task Outcome) (number : Nat) : List Text → Task Progress
  | [] => pure { reports := [], error := none }
  | step :: rest => do
    let result ← Task.attempt (perform step)
    let report : StepReport := { step, outcome := outcomeOf result }
    match report.outcome with
    | .failed error => pure { reports := [report], error := some (stepError number error) }
    | .passed =>
      let later ← steps perform (number + 1) rest
      pure { later with reports := report :: later.reports }

/-- The steps of a feature, or the generic one. -/
def planned (feature : Feature) : List Text :=
  if feature.steps.isEmpty then [genericStep] else feature.steps

/-- What is done for a step of the feature. -/
def performOf (p : Performer) (feature : Feature) (step : Text) : Task Outcome :=
  if feature.steps.isEmpty then p.genericCheck else p.perform step feature.testData

/-! ## Screenshots -/

/-- Where the screenshot of a failure goes. -/
def screenshotPath (feature : Feature) (options : Options) : Task Path := do
  let directory ← match options.screenshots with
    | some directory => pure directory
    | none => Layout.screenshotsDirectory none
  let stamp ← Layout.stamp
  pure (directory.child (feature.id ++ "-" ++ stamp ++ ".png"))

/-- Takes a screenshot into a file whose directory may be missing. -/
def screenshotInto (p : Performer) (path : Path) : Task Bool := do
  Task.ensureDirectory path.parent
  p.screenshot path.toText false

/-- Takes the screenshot of a failure; the path must be known, but all else may fail. -/
def captureFailure (p : Performer) (feature : Feature) (options : Options) :
    Task (Option Text) := do
  let path ← screenshotPath feature options
  match ← Task.attempt (screenshotInto p path) with
  | .ok true => pure (some path.toText)
  | _ => pure none

/-! ## Features -/

/-- What happens while the session is open. -/
structure Visit where
  progress : Progress
  /-- The screenshots, or why there is no path for one. -/
  capture : Except Fault (Option Text)

/-- Carries out the steps of the feature, and shows a failure in a screenshot. -/
def visit (p : Performer) (feature : Feature) (options : Options) : Task Visit := do
  let progress ← steps (performOf p feature) 1 (planned feature)
  match progress.error with
  | none => pure { progress, capture := .ok none }
  | some _ =>
    let capture ← Task.attempt (captureFailure p feature options)
    pure { progress, capture }

/-- The error of a run that something unexpected ended. -/
def unexpected (fault : Fault) : Text := "Unexpected error: " ++ fault.message

/-- The report of a feature whose session was opened. -/
def visitReport (feature : Feature) (v : Visit) : FeatureReport :=
  { featureId := feature.id
    description := feature.description
    steps := v.progress.reports
    passed := v.progress.error.isNone
    error := match v.capture with
      | .ok _ => v.progress.error
      | .error fault => some (unexpected fault)
    screenshots := match v.capture with
      | .ok (some path) => [path]
      | _ => [] }

/-- The report of a feature whose session was not opened. -/
def closedReport (feature : Feature) (fault : Fault) : FeatureReport :=
  { featureId := feature.id
    description := feature.description
    error := some (match fault with
      | .openFailed .. => fault.message
      | fault => unexpected fault) }

/-- The report of a feature when the browser is missing. -/
def missingReport (feature : Feature) : FeatureReport :=
  { featureId := feature.id
    description := feature.description
    error := some dependencyMissingError }

/-- Tests a feature in a session of its own, the browser being there. -/
def visitFeature (g : Gateway) (feature : Feature) (options : Options) : Task FeatureReport := do
  Session.enter .closed
  let visited := (options.session g).opened options.baseUrl options.headless
    (visit (options.performer g) feature options)
  match ← Task.attempt visited with
  | .ok v => pure (visitReport feature v)
  | .error fault => pure (closedReport feature fault)

/-- Tests a feature. -/
def feature (g : Gateway) (feature : Feature) (options : Options) : Task FeatureReport := do
  if ← Install.ensure g then visitFeature g feature options else pure (missingReport feature)

/-! ## Batches -/

/-- Is the feature part of a batch? -/
def isSelected (options : Options) (feature : Feature) : Bool := feature.passes || options.testAll

/-- Tests features one after the other. -/
def features (g : Gateway) (options : Options) : List Feature → Task (List FeatureReport)
  | [] => pure []
  | f :: rest => do
    let report ← feature g f options
    let others ← features g options rest
    pure (report :: others)

/-- The report of a batch whose features were tested. -/
def batchReport (results : List FeatureReport) : BatchReport :=
  { total := results.length
    passed := results.countP (·.passed)
    failed := results.countP (!·.passed)
    results }

/-- Tests the accepted features, or all of them if the options say so. -/
def batch (g : Gateway) (all : List Feature) (options : Options) : Task BatchReport := do
  if ← Install.ensure g then
    let results ← features g options (all.filter (isSelected options))
    pure (batchReport results)
  else
    pure { total := all.length, passed := 0, failed := all.length
           error := some dependencyMissingError }

end Run

end Acceptance
