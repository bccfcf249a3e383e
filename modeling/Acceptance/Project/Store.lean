import Acceptance.Feature.Basic
import Acceptance.Feature.Tally
import Acceptance.Project.Layout
import Acceptance.Text.LowerCase

/-! # The project file

Reading and writing the file that lists the features of a project. What the file holds beyond the
features is kept as it is.
-/

namespace Acceptance

/-- The content of a project file. -/
structure Project where
  data : Entries
  features : List Value

namespace Project

/-! ## Files -/

/-- Writes a value as a document; a value that cannot be written leaves the file alone. -/
def writeDocument (p : Path) (v : Value) : Task Unit :=
  match Json.write v with
  | .ok document => Task.writeText p document
  | .error cause => Task.fail (Fault.ofUnwritable cause)

/-- The value of a document; `p` is its file. -/
def parse (p : Path) (document : Text) : Except Fault Value :=
  match Json.read document with
  | .ok v => .ok v
  | .error error =>
    match Fault.ofUnreadable error with
    | .invalid (.json error) => .error (.invalid (.unreadableProject p.toText error.message))
    | fault => .error fault

/-- A project file that the system does not let us read. -/
def unreadable (p : Path) (fault : Fault) : Fault :=
  match fault with
  | .file .. => .invalid (.unreadableProject p.toText fault.message)
  | fault => fault

/-- The project that a value describes: an object with a list of features. -/
def ofValue (p : Path) (v : Value) : Except Fault Project :=
  match v with
  | .object data =>
    match Entries.get? data "features" with
    | some (.list features) => .ok { data, features }
    | _ => .error (.invalid (.projectStructure p.toText))
  | _ => .error (.invalid (.projectStructure p.toText))

/-- Reads the project file. -/
def load : Task Project := do
  let p ← Layout.featuresFile
  if ← Task.pathExists p then
    match ← Task.attempt (Task.readText p) with
    | .error fault => Task.fail (unreadable p fault)
    | .ok document =>
      let v ← Task.ofExcept (parse p document)
      Task.ofExcept (ofValue p v)
  else Task.fail (.projectMissing p.toText)

/-- The data to be written: the features, the time and the tally are new. -/
def dataAt (project : Project) (now : Instant) (tally : Tally) : Entries :=
  ((project.data.set "features" (.list project.features)).set "updated_at" now.toText).set
    "metadata" tally.toValue

/-- Writes the project file, and answers with the tally in it. -/
def save (project : Project) : Task Tally := do
  let now ← Layout.now
  let tally ← Task.ofExcept (Tally.ofValues project.features)
  let p ← Layout.featuresFile
  writeDocument p (.object (project.dataAt now tally))
  pure tally

/-! ## Features -/

/-- The entry with the id, and how many stand before it. -/
def locate (id : Value) : List Value → Except Fault (Nat × Entries)
  | [] => .error (.featureMissing id.shown)
  | v :: rest => do
    let e ← Entry.fields v
    if Entry.hasId e id then .ok (0, e)
    else
      let (before, found) ← locate id rest
      .ok (before + 1, found)

/-- The first entry with the id. -/
def find (project : Project) (id : Value) : Except Fault Entries := do
  let (_, e) ← locate id project.features
  .ok e

/-- Adds a feature at the end and writes the project file. -/
def addFeature (description category priority steps : Value) : Task Value := do
  let project ← load
  let id : Value := .text (Entry.idOf (project.features.length + 1))
  let feature ← Task.ofExcept (Entry.create id description category priority steps)
  let _ ← save { project with features := project.features ++ [feature] }
  pure feature

/-- Marks the first feature with the id as accepted and writes the project file. -/
def markDone (id notes : Value) : Task (Value × Tally) := do
  let project ← load
  let (before, e) ← Task.ofExcept (locate id project.features)
  let now ← Layout.now
  let updated ← Task.ofExcept (Entry.complete e notes now)
  let features := project.features.set before (.object updated)
  let tally ← save { project with features }
  pure (.object updated, tally)

/-- The feature with the id. -/
def feature (id : Value) : Task Feature := do
  let project ← load
  let e ← Task.ofExcept (project.find id)
  Task.ofExcept (Feature.ofFields e)

/-- All features of the project. -/
def allFeatures : Task (List Feature) := do
  let project ← load
  Task.ofExcept (Feature.ofValues project.features)

/-! ## New projects -/

/-- A character that an id may hold. -/
def isIdChar (c : CodePoint) : Bool :=
  (0x61 ≤ c.val && c.val ≤ 0x7A) || c.isAsciiDigit || c = '-'

/-- The id of a project: its name in lower case, with a dash for every other character. -/
def idOf (name : Text) : Text :=
  (Text.lower name).map fun c => if isIdChar c then c else '-'

/-- The tally of no features. -/
def emptyTally : Tally := { total := 0, completed := 0, byPriority := [], byCategory := [] }

/-- The data of a new project. -/
def newData (name type : Text) (now : Instant) : Value :=
  Value.record
    [("version", "1.0"), ("project_id", .text (idOf name)), ("project_name", .text name),
      ("project_type", .text type), ("created_at", now.toText), ("updated_at", now.toText),
      ("features", .list []), ("metadata", emptyTally.toValue), ("sessions", .list [])]

end Project

end Acceptance
