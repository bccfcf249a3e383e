import Acceptance.Machine.Basic

/-! # The disk and the environment

Tasks on files, directories, variables and homes.
-/

namespace Acceptance

/-! ## Variables -/

namespace Environment

/-- The value of a variable. -/
def get? (environment : Environment) (name : Text) : Option Text :=
  (environment.find? fun v => v.1 = name).map (·.2)

/-- The variables with one set. -/
def set : Environment → Text → Text → Environment
  | [], name, value => [(name, value)]
  | v :: rest, name, value =>
    if v.1 = name then (name, value) :: rest else v :: set rest name value

end Environment

namespace Task

/-- The value of a variable. -/
def environment? (name : Text) : Task (Option Text) :=
  read fun m => Environment.get? m.environment name

/-- The value of a variable, if it is not empty. -/
def setVariable? (name : Text) : Task (Option Text) := do
  let value ← environment? name
  pure (value.filter (!·.isEmpty))

/-! ## Homes -/

/-- The user that runs the program, when no variable says where the home is. -/
def defaultUser : Text := "root"

/-- The home that a part starting with `~` names, as it is looked up. -/
def lookUpHome (part : Text) : Task Text := do
  let user := part.drop 1
  let home ←
    if user.isEmpty then do
      match ← environment? "HOME" with
      | some home => pure (some home)
      | none => read fun m => Environment.get? m.homes defaultUser
    else read fun m => Environment.get? m.homes user
  match home with
  | none => pure part
  | some home =>
    let home := Text.trimRightWhere (· = '/') home
    pure (if home.isEmpty then "/" else home)

/-- The path with the home in place of a `~` at its start. -/
def expandHome (p : Path) : Task Path := do
  match p.parts with
  | [] => pure p
  | first :: rest =>
    if p.isAbsolute || first.head? ≠ some ('~' : CodePoint) then pure p
    else
      let home ← lookUpHome first
      if home.head? = some ('~' : CodePoint) then fail .homeUnknown
      else
        let home := Path.ofText home
        pure { home with parts := home.parts ++ rest }

/-! ## Paths -/

/-- What makes a path unfit for the system. -/
def pathProblem? (p : Path) : Option Fault :=
  let t := p.toText
  if t.any (·.val = 0) then some (.invalid .zeroCharacter)
  else
    match Utf8.encodeName t with
    | .ok _ => none
    | .error problem => some (.invalid (.unencodable problem))

/-- Refuses a path that is unfit for the system. -/
def checkPath (p : Path) : Task Unit :=
  match pathProblem? p with
  | some fault => fail fault
  | none => pure ()

/-- Applies an operation on the files at a path. -/
def onFiles {α : Type} (p : Path) (f : FileTree → Place → Except FileProblem α) : Task α := do
  checkPath p
  match ← read fun m => f m.files m.directory with
  | .ok a => pure a
  | .error problem => fail (.file problem p.toText)

/-- Applies a change of the files at a path. -/
def changeFiles (p : Path) (f : FileTree → Place → Except FileProblem FileTree) : Task Unit := do
  let files ← onFiles p f
  change fun m => { m with files }

/-- The absolute path, without points. -/
def resolvePath (p : Path) : Task Path := do
  if p.toText.any (·.val = 0) then fail (.invalid .zeroCharacter)
  else read fun m => p.resolve m.directory

/-- The current directory. -/
def currentDirectory : Task Path := read fun m => { root := "/", parts := m.directory }

/-! ## Files -/

/-- Is there something at the path? A path that leads through something missing, or through a file,
leads to nothing. -/
def pathExists (p : Path) : Task Bool := do
  match pathProblem? p with
  | some _ => pure false
  | none =>
    match ← read fun m => m.files.locate m.directory p with
    | .ok place => read fun m => (m.files.get? place).isSome
    | .error .missing => pure false
    | .error .notADirectory => pure false
    | .error problem => fail (.file problem p.toText)

/-- The text of a file, its line ends as line feeds. -/
def readText (p : Path) : Task Text := do
  let content ← onFiles p fun files directory => files.content directory p
  match Utf8.decode content with
  | .ok t => pure (Text.withLineFeeds t)
  | .error problem => fail (.invalid (.undecodable problem))

/-- Writes a text into a file. The file is emptied before the text is encoded. -/
def writeText (p : Path) (t : Text) : Task Unit := do
  changeFiles p fun files directory => files.write directory p []
  match Utf8.encode t with
  | .ok content => changeFiles p fun files directory => files.write directory p content
  | .error problem => fail (.invalid (.unencodable problem))

/-- Makes a directory and those above it, unless they are there. -/
def ensureDirectory (p : Path) : Task Unit := do
  checkPath p
  let (files, refusal) ← read fun m => m.files.ensure m.directory p
  change fun m => { m with files }
  match refusal with
  | none => pure ()
  | some (problem, refused) => fail (.file problem refused.toText)

/-- Makes a file executable. -/
def makeExecutable (p : Path) : Task Unit :=
  changeFiles p fun files directory => files.makeExecutable directory p

/-- Removes a file, if it is there. -/
def removeFile (p : Path) : Task Unit := do
  checkPath p
  match ← read fun m => m.files.removeFile m.directory p with
  | .ok files => change fun m => { m with files }
  | .error .missing => pure ()
  | .error problem => fail (.file problem p.toText)

/-- The size of a file in bytes. -/
def fileSize (p : Path) : Task Nat := do
  let content ← onFiles p fun files directory => files.content directory p
  pure content.length

/-! ## Output -/

/-- Prints a text; one that cannot be encoded is not printed at all. -/
def print (t : Text) : Task Unit :=
  match Utf8.encode t with
  | .ok _ => change fun m => { m with printed := m.printed ++ t }
  | .error problem => fail (.invalid (.unencodable problem))

/-- Passes a text on to the error output. -/
def echo (t : Text) : Task Unit := change fun m => { m with echoed := m.echoed ++ t }

end Task

end Acceptance
