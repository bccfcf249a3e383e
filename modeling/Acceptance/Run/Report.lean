import Acceptance.Envelope
import Acceptance.Browser.Performer

/-! # Reports

How the steps of a feature went, and the features of a batch.
-/

namespace Acceptance

/-- How one step went. -/
structure StepReport where
  step : Text
  outcome : Outcome
  deriving DecidableEq

/-- How the test of a feature went. -/
structure FeatureReport where
  featureId : Text
  description : Text
  steps : List StepReport := []
  passed : Bool := false
  error : Option Text := none
  screenshots : List Text := []
  deriving DecidableEq

/-- How a batch of features went. -/
structure BatchReport where
  total : Nat
  passed : Nat
  failed : Nat
  results : List FeatureReport := []
  error : Option Text := none
  deriving DecidableEq

def StepReport.toValue (r : StepReport) : Value :=
  Value.record
    [("step", .text r.step), ("passed", .bool r.outcome.isPassed),
      ("error", Value.ofText? r.outcome.error?)]

/-- The fields of a feature's report. -/
def FeatureReport.toValue (r : FeatureReport) : Value :=
  Value.record
    [("feature_id", .text r.featureId), ("description", .text r.description),
      ("steps", .list (r.steps.map StepReport.toValue)), ("passed", .bool r.passed),
      ("error", Value.ofText? r.error), ("screenshots", Value.texts r.screenshots)]

namespace BatchReport

/-- The fields of a batch's report. -/
def fields (r : BatchReport) : List (Text × Value) :=
  [("total", .int r.total), ("passed", .int r.passed), ("failed", .int r.failed),
    ("results", .list (r.results.map FeatureReport.toValue)), ("error", Value.ofText? r.error)]

def toValue (r : BatchReport) : Value := Value.record r.fields

end BatchReport

/-! ## Causes -/

/-- The error when the browser is missing and cannot be installed. -/
def dependencyMissingError : Text := "dependency not installed: agent-browser"

/-- The type of error that the text of a run's error tells of. -/
def failureType? : Option Text → Option ErrorType
  | none => none
  | some error =>
    if error = dependencyMissingError then some .dependencyMissing
    else if Text.startsWith error Fault.openFailedStart then some .openFailed
    else some .stepFailed

end Acceptance
