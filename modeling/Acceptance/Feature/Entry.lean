import Acceptance.Fault
import Acceptance.Text.Blank
import Acceptance.Text.Digit
import Acceptance.Time.Instant

/-! # Entries of a project file

A feature as it stands in the project file: an object whose fields may be missing or of any kind.
-/

namespace Acceptance

namespace Entry

/-- The fields of an entry. -/
def fields : Value → Except Fault Entries
  | .object fields => .ok fields
  | _ => .error .notAnObject

/-- The fields of all entries. -/
def allFields : List Value → Except Fault (List Entries)
  | [] => .ok []
  | v :: rest => do
    let first ← fields v
    let others ← allFields rest
    .ok (first :: others)

/-- Has the feature been accepted? -/
def passes (e : Entries) : Bool := (e.getD "passes").isTruthy

/-- The id as it stands. -/
def id (e : Entries) : Value := e.getD "id"

/-- Is the id this value? -/
def hasId (e : Entries) (wanted : Value) : Bool := (id e).equals wanted

def standardPriority : Text := "medium"

def standardCategory : Text := "functional"

/-- The priority, or the usual one. -/
def priority (e : Entries) : Value := (e.getD "priority").orElse (.text standardPriority)

/-- The category, or the usual one. -/
def category (e : Entries) : Value := (e.getD "category").orElse (.text standardCategory)

/-! ## Priorities -/

/-- The priorities, the most urgent first. -/
def priorities : List Text := ["critical", "high", "medium", "low"]

/-- The place of a priority; an unknown one counts as the usual one. -/
def rankOf (priority : Text) : Nat :=
  match priorities.findIdx? (· = priority) with
  | some rank => rank
  | none => 2

/-- The place of an entry among those that are to be done. -/
def rank (e : Entries) : Except Fault Nat :=
  match e.getD "priority" with
  | .text t => .ok (rankOf t)
  | .list _ => .error .wrongKind
  | .object _ => .error .wrongKind
  | _ => .ok (rankOf standardPriority)

/-! ## New entries -/

/-- The id of the feature number `index`: the number in at least three places, a sign included. -/
def idOf (index : Int) : Text :=
  "feat-" ++ if index < 0 then ('-' : CodePoint) :: Text.padded 2 index.natAbs
    else Text.padded 3 index.natAbs

/-- Refuses a value that is no priority. -/
def checkPriority : Value → Except Fault Unit
  | .list _ => .error .wrongKind
  | .object _ => .error .wrongKind
  | v =>
    if priorities.any fun priority => v.equals (.text priority) then .ok ()
    else if v.hasLongInt then .error (.invalid .longIntegerWritten)
    else .error (.invalid (.priority v.shown))

/-- The steps that a value gives: the items of a list, the characters of a text, or the keys of an
object. -/
def stepsOf : Value → Except Fault (List Value)
  | .list items => .ok items
  | .text t => .ok (t.map fun c => .text [c])
  | .object fields => .ok (fields.map fun f => f.1.toValue)
  | v => if v.isTruthy then .error .wrongKind else .ok []

/-- A new entry, which is still to be done. Everything but the priority is taken as it is. -/
def create (id description category priority steps : Value) : Except Fault Value := do
  checkPriority priority
  let steps ← stepsOf steps
  .ok (Value.record
    [("id", id), ("category", category), ("priority", priority), ("description", description),
      ("steps", .list steps), ("acceptance_criteria", .list []), ("dependencies", .list []),
      ("status", "pending"), ("passes", .bool false), ("attempts", .int 0), ("notes", "")])

/-! ## Attempts -/

/-- The digits in front and what follows them; an underscore may stand between two of them. -/
def readDigits : Text → Option (Text × Text)
  | [] => none
  | [c] => if c.isDigit then some ([c], []) else none
  | c :: d :: rest =>
    if !c.isDigit then none
    else if d = '_' then (readDigits rest).map fun (digits, left) => (c :: digits, left)
    else if d.isDigit then (readDigits (d :: rest)).map fun (digits, left) => (c :: digits, left)
    else some ([c], d :: rest)

/-- The whole number that a text writes; too many digits are refused first, whatever follows. -/
def integerOf (t : Text) : Except Fault Int :=
  let trimmed := Text.trimAroundNumber t
  let (negative, unsigned) := match trimmed with
    | [] => (false, [])
    | c :: rest => if c = '-' then (true, rest) else (false, if c = '+' then rest else trimmed)
  match readDigits unsigned with
  | none => .error (.invalid (.integer t))
  | some (digits, left) =>
    if Value.mostDigits < digits.length then .error (.invalid (.longIntegerRead digits.length))
    else if !left.isEmpty then .error (.invalid (.integer t))
    else
      let n : Int := Text.digitsValue digits
      .ok (if negative then -n else n)

/-- The number of attempts so far: what the field holds, as a whole number. -/
def attempts (e : Entries) : Except Fault Int :=
  match e.getD "attempts" with
  | .null => .ok 0
  | .bool b => .ok (if b then 1 else 0)
  | .int n => .ok n
  | .real x =>
    if x.isNaN then .error (.invalid .integerOfNaN)
    else if x.isInfinite then .error (.excess .integerOfInfinity)
    else .ok x.truncate
  | .text t => if t.isEmpty then .ok 0 else integerOf t
  | .moment _ => .error .wrongKind
  | .list items => if items.isEmpty then .ok 0 else .error .wrongKind
  | .object fields => if fields.isEmpty then .ok 0 else .error .wrongKind

/-! ## Acceptance -/

/-- The notes after acceptance: the new ones, unless they are empty, or those that were there. -/
def notesAfter (e : Entries) (notes : Value) : Value :=
  if notes.isTruthy then notes else (e.get? "notes").getD ""

/-- The entry after the feature was accepted at an instant. -/
def complete (e : Entries) (notes : Value) (now : Instant) : Except Fault Entries := do
  let attempts ← attempts e
  .ok (((((e.set "passes" (.bool true)).set "status" "completed").set "completed_at"
    now.toText).set "attempts" (.int (attempts + 1))).set "notes" (notesAfter e notes))

end Entry

end Acceptance
