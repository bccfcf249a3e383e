import Acceptance.Feature.Entry
import Acceptance.Step.Input

/-! # Features

A feature as a run sees it: every field is there and of its kind.
-/

namespace Acceptance

structure Feature where
  id : Text
  description : Text
  steps : List Text
  passes : Bool
  testData : Option Input
  priority : Text
  category : Text
  deriving DecidableEq

namespace Feature

/-- The data for fill steps: a field and a value, under either of two names. -/
def testDataOf (e : Entries) : Option Input :=
  match (e.getD "test_data").orElse (e.getD "testData") with
  | .object data =>
    match Entries.get? data "field", Entries.get? data "value" with
    | some field, some value => some { field := Value.shown field, value := Value.shown value }
    | _, _ => none
  | _ => none

/-- The steps that a field holds, as texts. -/
def stepsOf (v : Value) : Except Fault (List Text) := do
  let steps ← Entry.stepsOf v
  .ok (steps.map Value.shown)

/-- The feature that an entry describes. -/
def ofFields (e : Entries) : Except Fault Feature := do
  let some id := e.get? "id" | .error (.entryMissing "id")
  let steps ← stepsOf (e.getD "steps")
  .ok
    { id := id.shown
      description := ((e.get? "description").getD "").shown
      steps
      passes := Entry.passes e
      testData := testDataOf e
      priority := (Entry.priority e).shown
      category := (Entry.category e).shown }

/-- The feature that an entry describes. -/
def ofValue (v : Value) : Except Fault Feature := do ofFields (← Entry.fields v)

/-- The features that the entries describe. -/
def ofValues : List Value → Except Fault (List Feature)
  | [] => .ok []
  | v :: rest => do
    let first ← ofValue v
    let others ← ofValues rest
    .ok (first :: others)

end Feature

end Acceptance
