import Acceptance.Address.Url
import Acceptance.Json.Reader
import Acceptance.Json.Writer
import Acceptance.Machine.SystemError
import Acceptance.Text.Utf8
import Acceptance.Time.Timestamp

/-! # Faults

Everything that can stop a task, by its cause, and the message that tells of it.
-/

namespace Acceptance

/-! ## The system -/

/-- What the file system refuses. -/
inductive FileProblem where
  | missing
  | alreadyThere
  | notADirectory
  | isADirectory
  | nameTooLong
  deriving DecidableEq

/-- How the system reports it. -/
def FileProblem.error : FileProblem → SystemError
  | .missing => SystemError.missing
  | .alreadyThere => SystemError.alreadyThere
  | .notADirectory => SystemError.notADirectory
  | .isADirectory => SystemError.isADirectory
  | .nameTooLong => SystemError.nameTooLong

/-! ## Values that are not accepted -/

/-- A value that is not accepted. -/
inductive Invalid where
  | filter (status : Text)
  | priority (priority : Text)
  | projectType (type : Text)
  | unreadableProject (path reason : Text)
  | projectStructure (path : Text)
  | settings (path : Text)
  | page (entry : Value)
  | logLevel (name : Text)
  | errorType (name : Value)
  | timestamp (problem : Timestamp.Problem)
  | address (problem : Url.Problem)
  | longIntegerRead (digits : Nat)
  | longIntegerWritten
  | integer (t : Text)
  | integerOfNaN
  /-- A path or an argument with a zero character in it. -/
  | zeroCharacter
  | json (error : Json.Error)
  | undecodable (error : Utf8.Undecodable)
  | unencodable (error : Utf8.Unencodable)

/-- How much of a malformed integer is told, quotes and escapes included. -/
def longestExcerpt : Nat := 200

def Invalid.message : Invalid → Text
  | .filter status =>
    "Unsupported filter: " ++ status ++ " (expected one of all, pending, done)"
  | .priority given => "Unsupported priority: " ++ given
  | .projectType type =>
    "Unsupported project type: " ++ type ++ " (expected one of web, api, cli, library)"
  | .unreadableProject path reason => "Cannot read " ++ path ++ ": " ++ reason
  | .projectStructure path => "Invalid features file structure: " ++ path
  | .settings path => "Invalid config file: " ++ path
  | .page entry => "Invalid ui_review page entry: " ++ entry.quoted
  | .logLevel name => "Unknown log level: " ++ name
  | .errorType name =>
    "Unknown error type: " ++ name.quoted ++
      ". Add it to lra.core.error_types.KNOWN_ERROR_TYPES."
  | .timestamp problem => problem.message
  | .address problem => problem.message
  | .longIntegerRead digits => Value.tooManyDigitsToRead digits
  | .longIntegerWritten => Value.tooManyDigitsToWrite
  | .integer t =>
    "invalid literal for int() with base 10: " ++ (Text.quoted t).take longestExcerpt
  | .integerOfNaN => "cannot convert float NaN to integer"
  | .zeroCharacter => "embedded null byte"
  | .json error => error.message
  | .undecodable error => error.message
  | .unencodable error => error.message

/-! ## Numbers that are too large -/

/-- A number beyond the range of what it is turned into. -/
inductive Excess where
  /-- A time of so many milliseconds is no double in seconds. -/
  | duration
  | integerOfInfinity
  | instant
  deriving DecidableEq

def Excess.message : Excess → Text
  | .duration => "integer division result too large for a float"
  | .integerOfInfinity => "cannot convert float infinity to integer"
  | .instant => "date value out of range"

/-! ## Values that lie too deep -/

/-- A text whose values lie too deep in one another. -/
inductive Nested where
  | document (container : Json.Container)
  | settings
  deriving DecidableEq

def Nested.message : Nested → Text
  | .document container => (Json.Error.nestedTooDeep container).message
  | .settings => Json.tooDeep

/-! ## Faults -/

/-- Why a task stopped. -/
inductive Fault where
  /-- There is no project file at the path. -/
  | projectMissing (path : Text)
  | featureMissing (id : Text)
  | alreadyInitialized (path : Text)
  | notARepository (path : Text)
  | nothingToCommit
  | toolMissing (tool : Text)
  | processFailed (command : List Text) (code : Int) (output errors : Text)
  | dependencyMissing (tool : Text)
  /-- The browser did not open, and what it said. -/
  | openFailed (url : Text) (error : Option Text)
  | invalid (cause : Invalid)
  | excess (cause : Excess)
  | nestedTooDeep (cause : Nested)
  /-- The file system refused the path. -/
  | file (problem : FileProblem) (path : Text)
  /-- A value of a kind that the operation is not defined for. -/
  | wrongKind
  /-- Something that is not an object was asked for an entry. -/
  | notAnObject
  | entryMissing (key : Text)
  /-- The user whose home a path starts with is not known. -/
  | homeUnknown
  /-- Another program broke off with the message. -/
  | broken (message : Text)

namespace Fault

/-- What every message of a browser that did not open starts with. -/
def openFailedStart : Text := "Failed to open browser"

def message : Fault → Text
  | .projectMissing path =>
    "Not an LRA project (missing " ++ path ++ "); run \x60lra init\x60 first"
  | .featureMissing id => "Feature " ++ id ++ " not found"
  | .alreadyInitialized path => "Project already initialized: " ++ path
  | .notARepository path => "Not a git repository: " ++ path
  | .nothingToCommit => "Nothing to commit"
  | .toolMissing tool => "Required tool not found on PATH: " ++ tool
  | .processFailed command code _ _ =>
    "Process failed with code " ++ Text.ofInt code ++ ": " ++ Text.joinWith " " command
  | .dependencyMissing tool => "dependency not installed: " ++ tool
  | .openFailed _ error =>
    let said : Text := match error with
      | none | some [] => "unknown error"
      | some said => said
    openFailedStart ++ ": " ++ said
  | .invalid cause => cause.message
  | .excess cause => cause.message
  | .nestedTooDeep cause => cause.message
  | .file problem path => problem.error.message ++ ": " ++ Text.quoted path
  | .wrongKind => "unsupported kind of value"
  | .notAnObject => "not an object"
  | .entryMissing key => Text.quoted key
  | .homeUnknown => "Could not determine home directory."
  | .broken message => message

/-- The fault of a timestamp that cannot be read. -/
def ofTimestamp : Timestamp.Problem → Fault
  | .instantOutOfRange => .excess .instant
  | problem => .invalid (.timestamp problem)

/-- The fault of a document that cannot be read. -/
def ofUnreadable : Json.Error → Fault
  | .longInteger digits => .invalid (.longIntegerRead digits)
  | .nestedTooDeep container => .nestedTooDeep (.document container)
  | error => .invalid (.json error)

/-- The fault of a value that cannot be written. -/
def ofUnwritable : Json.Unwritable → Fault
  | .mixedKeys => .wrongKind
  | .moment => .wrongKind
  | .longInteger => .invalid .longIntegerWritten

end Fault

end Acceptance
