import Acceptance.Fault
import Acceptance.Text.Blank

/-! # Evidence

What a page shows, as far as the browser tells: the values of a snapshot, and the address.
-/

namespace Acceptance

namespace Evidence

mutual

/-- The texts and numbers of a value, as texts. -/
def scalars : Value → List Text
  | .text t => [t]
  | .int n => [Text.ofInt n]
  | .real x => [x.toText]
  | .list items => itemScalars items
  | .object entries => entryScalars entries
  | _ => []

def itemScalars : List Value → List Text
  | [] => []
  | v :: rest => scalars v ++ itemScalars rest

def entryScalars : List (Key × Value) → List Text
  | [] => []
  | (_, v) :: rest => scalars v ++ entryScalars rest

end

/-- The text of a snapshot, a line for each text or number. A snapshot that is malformed shows
nothing, but one that is nested too deep is a fault. -/
def snapshotText (snapshot : Text) : Except Fault Text :=
  match Json.read snapshot with
  | .ok v => .ok (Text.joinWith "\n" (scalars v))
  | .error error =>
    match Fault.ofUnreadable error with
    | .nestedTooDeep cause => .error (.nestedTooDeep cause)
    | _ => .ok []

/-- A text without slashes at its end. -/
def withoutSlashes (t : Text) : Text := Text.trimRightWhere (· = '/') t

/-- Is the path of the address the route, but for slashes at the end? -/
def isAtRoute (address route : Text) : Except Url.Problem Bool := do
  let path ← Url.path (Text.trim address)
  .ok (withoutSlashes path = withoutSlashes route)

end Evidence

end Acceptance
