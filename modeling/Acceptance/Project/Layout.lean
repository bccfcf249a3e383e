import Acceptance.Machine.Disk

/-! # Where things are

The directories and files of a project, and the time that its files are stamped with.
-/

namespace Acceptance

namespace Layout

/-! ## Time -/

/-- The time: the one that a variable sets, or that of the system. -/
def now : Task Instant := do
  match ← Task.setVariable? "LRA_TEST_NOW_ISO" with
  | none => Task.read (·.time)
  | some written =>
    match Timestamp.read written with
    | .ok instant => pure instant
    | .error problem => Task.fail (Fault.ofTimestamp problem)

/-- The time as a stamp for file names. -/
def stamp : Task Text := do
  let now ← now
  pure now.stamp

/-! ## Directories -/

/-- The directory of the project: the one that a variable names, or the current one. -/
def projectDirectory : Task Path := do
  match ← Task.setVariable? "LRA_PROJECT_DIR" with
  | some t => Task.expandHome (Path.ofText t)
  | none => Task.currentDirectory

/-- The directory of the project's own files. -/
def agentDirectoryOf (root : Path) : Path := root.child ".agent"

def featuresFileOf (root : Path) : Path := (agentDirectoryOf root).child "features.json"

def progressFileOf (root : Path) : Path := (agentDirectoryOf root).child "progress.md"

def agentDirectory : Task Path := do
  let root ← projectDirectory
  pure (agentDirectoryOf root)

def featuresFile : Task Path := do
  let root ← projectDirectory
  pure (featuresFileOf root)

def progressFile : Task Path := do
  let root ← projectDirectory
  pure (progressFileOf root)

def runsDirectory : Task Path := do
  let agent ← agentDirectory
  pure (agent.child "runs")

/-- A path seen from the project directory. -/
def fromProject (p : Path) : Task Path := do
  if p.isAbsolute then pure p
  else
    let root ← projectDirectory
    pure (root.join p)

/-- The directory of screenshots: the given one, or that of the project. -/
def screenshotsDirectory (given : Option Text) : Task Path := do
  match given with
  | none | some [] =>
    let agent ← agentDirectory
    pure (agent.child "screenshots")
  | some t =>
    let p ← Task.expandHome (Path.ofText t)
    fromProject p

/-- The directories inside that of the project's own files. -/
def agentParts : List Text := ["sessions", "screenshots", "runs"]

/-- Makes the directories, one after the other. -/
def ensureAll : List Path → Task Unit
  | [] => pure ()
  | p :: rest => do
    Task.ensureDirectory p
    ensureAll rest

/-- Makes the directory of a project's own files. -/
def ensureAgentDirectory (root : Path) : Task Path := do
  let agent := agentDirectoryOf root
  ensureAll (agent :: agentParts.map agent.child)
  pure agent

end Layout

end Acceptance
