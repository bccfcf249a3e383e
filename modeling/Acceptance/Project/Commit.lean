import Acceptance.Machine.ChildProcess
import Acceptance.Project.Store

/-! # Commits and exports

Committing the state of a project, and writing its data to another file.
-/

namespace Acceptance

namespace Commit

/-- The message when nothing else is known. -/
def standardMessage : Text := "chore: update progress"

/-- The description of the first entry with the id. -/
def descriptionOf (id : Value) : List Value → Except Fault (Option Text)
  | [] => .ok none
  | v :: rest => do
    let e ← Entry.fields v
    if Entry.hasId e id then .ok (some ((Entries.get? e "description").getD "").shown)
    else descriptionOf id rest

/-- The message of a commit: the given one, or the description of the feature. -/
def message (id given : Option Text) : Task Text := do
  match given, id with
  | some (c :: rest), _ => pure (c :: rest)
  | _, some (c :: rest) =>
    let project ← Project.load
    match ← Task.ofExcept (descriptionOf (.text (c :: rest)) project.features) with
    | some description => pure ("feat: " ++ description)
    | none => pure standardMessage
  | _, _ => pure standardMessage

/-- What was committed, and the tally that the project file holds. -/
structure Result where
  message : Text
  metadata : Value

/-- A repository is asked for. -/
def requireRepository (root : Text) : Task Unit := do
  match ← Task.attempt
      (Task.runChecked ["git", "rev-parse", "--is-inside-work-tree"] (some root)) with
  | .ok _ => pure ()
  | .error (.processFailed ..) => Task.fail (.notARepository root)
  | .error fault => Task.fail fault

/-- Commits everything in the project directory. -/
def run (id given : Option Text) : Task Result := do
  let project ← Project.load
  let root ← Layout.projectDirectory
  let root := root.toText
  let _ ← Task.requireTool "git"
  requireRepository root
  let message ← message id given
  let _ ← Task.runChecked ["git", "add", "-A"] (some root)
  let status ← Task.runChecked ["git", "status", "--porcelain"] (some root)
  if Text.isBlank status.output then Task.fail .nothingToCommit
  else
    let _ ← Task.runChecked ["git", "commit", "-m", message] (some root)
    pure { message, metadata := (Entries.get? project.data "metadata").getD (.object []) }

end Commit

namespace Export

/-- The file that is written when none is given. -/
def standardFile : Task Path := do
  let stamp ← Layout.stamp
  pure (Path.ofText ("export-" ++ stamp ++ ".json"))

/-- Writes the data of the project to a file, and answers with its path. -/
def run (output : Option Text) : Task Path := do
  let project ← Project.load
  let target ← match output with
    | none | some [] => standardFile
    | some t => pure (Path.ofText t)
  let target ← Layout.fromProject target
  Task.ensureDirectory target.parent
  Project.writeDocument target (.object project.data)
  pure target

end Export

end Acceptance
