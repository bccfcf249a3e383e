import Acceptance.CommandLine.Run

/-! # The program

Runs a command line on this computer. What the command may look at is read first, the command is run
on it, and what it changed is written back. No other program is started: none counts as installed.
-/

namespace Acceptance

namespace Program

/-! ## What the command may look at -/

/-- Other programs do not start. -/
def outside : Outside where
  launch _ _ := { answer := .error .notFound, effect := fun _ s => s }
  check _ _ := { answer := { code := 127, output := [], errors := [] }, effect := fun _ s => s }
  browse _ _ := { answer := .broken "no browser", effect := fun _ s => s }

/-- The variables that count. -/
def variableNames : List String :=
  ["HOME", "XDG_CONFIG_HOME", "LRA_PROJECT_DIR", "LRA_CONFIG_PATH", "LRA_BASE_URL", "LRA_HEADLESS",
    "LRA_LOG_LEVEL", "LRA_TEST_NOW_ISO"]

/-- The files of a project, seen from its directory. -/
def projectFiles : List Text :=
  let directories : List Text := [".agent/sessions", ".agent/screenshots", ".agent/runs"]
  Init.files ++ directories

/-- The paths that a command line may look at: the settings, and the files of the project and of
every directory that an argument may name. -/
def paths (args : List Text) : Task (List Path) := do
  let settings ← Settings.file
  let project ← Layout.projectDirectory
  let named ← args.mapM fun arg => Task.expandHome (Path.ofText arg)
  let roots := project :: named ++ named.map project.join
  pure (settings :: roots ++ roots.flatMap fun root => projectFiles.map root.child)

/-- The places on the way to a path, the path included. -/
def placesTo (directory : Place) (p : Path) : List Place :=
  let place := (p.resolve directory).parts
  (List.range place.length).map fun i => place.take (i + 1)

/-! ## Reading and writing -/

def stringOf (t : Text) : String := String.ofList (t.map fun c => Char.ofNat c.val)

def pathString (place : Place) : String := stringOf ("/" ++ Text.joinWith "/" place)

/-- What is at a place of the disk. -/
def readNode (place : Place) : IO (Option Node) := do
  try
    let bytes ← IO.FS.readBinFile (pathString place)
    pure (some (.file bytes.toList false))
  catch
    | .noFileOrDirectory .. => pure none
    | _ => pure (some .directory)

/-- The tree with what is at a place, unless a file is in the way. -/
def addNode (files : FileTree) (place : Place) : IO FileTree := do
  match files.get? place, files.get? place.dropLast with
  | none, some .directory =>
    match ← readNode place with
    | some node => pure (files.put place node)
    | none => pure files
  | _, _ => pure files

/-- Writes what is at a place to the disk. -/
def writeNode (place : Place) : Node → IO Unit
  | .directory => IO.FS.createDirAll (pathString place)
  | .file content executable => do
    IO.FS.writeBinFile (pathString place) ⟨content.toArray⟩
    if executable then
      let all : IO.AccessRight := { read := true, write := true, execution := true }
      let others : IO.AccessRight := { read := true, execution := true }
      IO.setAccessRights (pathString place) { user := all, group := others, other := others }

/-- Writes the places that are new or otherwise than before. -/
def writeChanges (before after : FileTree) : IO Unit := do
  for (place, node) in after do
    if before.get? place ≠ some node then writeNode place node
  for (place, _) in before do
    if (after.get? place).isNone then IO.FS.removeFile (pathString place)

/-! ## The computer -/

/-- The microseconds of year 1 up to 1970. -/
def epoch : Nat := (Date.ordinal { year := 1970, month := 1, day := 1 } - 1) * microsInDay

/-- The time, as a new file is stamped with it. -/
def systemTime : IO Instant := do
  let (_, file) ← IO.FS.createTempFile
  let stamp := (← file.metadata).modified
  IO.FS.removeFile file
  let micros := (epoch : Int) + stamp.sec * 1000000 + stamp.nsec.toNat / 1000
  pure ((Instant.ofMicros? micros).getD ⟨0, by decide⟩)

/-- The number of the first run: the time in milliseconds and eighty random bits. -/
def firstRun (now : Instant) : IO Nat := do
  let random ← IO.rand 0 (twoTo 80 - 1)
  pure ((now.micros - epoch) / 1000 * twoTo 80 + random)

/-- The variables that are set. -/
def environment : IO Environment := do
  let values ← variableNames.mapM fun name => do
    pure ((← IO.getEnv name).map fun value => (Text.of name, Text.of value))
  pure (values.filterMap id)

/-- This computer, no file of which has been read. -/
def computer : IO Machine := do
  let directory ← IO.currentDir
  let time ← systemTime
  pure
    { files := []
      installed := []
      directory := (Path.ofText (Text.of directory.toString)).parts
      environment := ← environment
      homes := []
      toolDirectory := "/usr/bin"
      time
      elapsed := 0
      calls := []
      echoed := []
      printed := []
      session := .closed
      settings := none
      runs := ← firstRun time }

/-! ## Running -/

/-- The computer with what the command line may look at. -/
def prepared (args : List Text) : IO Machine := do
  let m ← computer
  let places := match (paths args).run outside m with
    | (.ok found, _) => found.flatMap (placesTo m.directory)
    | (.error _, _) => []
  let files ← places.foldlM addNode []
  pure { m with files }

/-- Runs a command line and answers with the exit code. A fault that gets out is told. -/
def run (args : List String) : IO UInt32 := do
  let args := args.map Text.of
  let m ← prepared args
  let (result, after) := (CommandLine.run args).run outside m
  writeChanges m.files after.files
  IO.print (stringOf after.printed)
  match result with
  | .ok code => pure code.toUInt32
  | .error fault =>
    IO.eprintln (stringOf fault.message)
    pure 1

end Program

end Acceptance

def main (args : List String) : IO UInt32 := Acceptance.Program.run args
