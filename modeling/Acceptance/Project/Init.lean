import Acceptance.Machine.ChildProcess
import Acceptance.Project.Store
import Acceptance.Project.Templates

/-! # New projects

Making the files of a new project and putting them under version control, as far as that is there.
-/

namespace Acceptance

namespace Init

/-- The types of projects. -/
def types : List Text := ["web", "api", "cli", "library"]

/-- What was made. -/
structure Result where
  root : Text
  id : Text
  name : Text
  type : Text
  /-- The files, seen from the root. -/
  files : List Text
  gitInitialized : Bool
  deriving DecidableEq

/-- The files of a new project, seen from its root. -/
def files : List Text :=
  [".agent/features.json", ".agent/progress.md", "init.sh", ".claude/CLAUDE.md", "app_spec.txt"]

/-- The message of the first commit. -/
def firstMessage : Text := "Initial: project setup"

/-- The commands that put a project under version control. -/
def gitCommands : List (List Text) :=
  [["git", "init"], ["git", "add", "."], ["git", "commit", "-m", firstMessage]]

/-- Runs programs one after the other, each only if the one before it succeeded. -/
def runAll (directory : Text) : List (List Text) → Task Unit
  | [] => pure ()
  | argv :: rest => do
    let _ ← Task.runChecked argv (some directory)
    runAll directory rest

/-- Puts the project under version control. Without the tool, or when it fails, that is left out. -/
def startVersionControl (root : Path) : Task Bool := do
  let setUp : Task Unit := do
    let _ ← Task.requireTool "git"
    runAll root.toText gitCommands
  match ← Task.attempt setUp with
  | .ok () => pure true
  | .error (.toolMissing _) => pure false
  | .error (.processFailed ..) => pure false
  | .error fault => Task.fail fault

/-- Writes the files other than the project file. -/
def writeGuides (root : Path) (name type : Text) : Task Unit := do
  let today ← Layout.now
  Task.writeText (Layout.progressFileOf root) (Templates.progress name type today.date.toText)
  let script := root.child "init.sh"
  Task.writeText script (Templates.script type)
  Task.makeExecutable script
  let guide := (root.child ".claude").child "CLAUDE.md"
  Task.ensureDirectory guide.parent
  Task.writeText guide (Templates.guide name)
  Task.writeText (root.child "app_spec.txt") (Templates.specification name)

/-- The root of a new project: the given one, or the project directory. -/
def rootOr : Option Path → Task Path
  | some root => pure root
  | none => Layout.projectDirectory

/-- Makes a new project, in the project directory unless a root is given; it is named like its root
unless a name is given. -/
def run (name : Option Text) (type : Text) (root : Option Path) : Task Result := do
  if !types.contains type then Task.fail (.invalid (.projectType type))
  else
    let root ← rootOr root
    let root ← Task.resolvePath root
    let featuresFile := Layout.featuresFileOf root
    if ← Task.pathExists featuresFile then Task.fail (.alreadyInitialized featuresFile.toText)
    else
      let name := match name with
        | none | some [] => root.name
        | some name => name
      Task.ensureDirectory root
      let _ ← Layout.ensureAgentDirectory root
      let now ← Layout.now
      Project.writeDocument featuresFile (Project.newData name type now)
      writeGuides root name type
      let gitInitialized ← startVersionControl root
      pure { root := root.toText, id := Project.idOf name, name, type, files, gitInitialized }

end Init

end Acceptance
