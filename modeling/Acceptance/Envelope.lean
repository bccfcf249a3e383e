import Acceptance.Fault

/-! # Envelopes

The answer of every command: what it found, or an error of a known type. What a caller puts into an
envelope is kept as it is.
-/

namespace Acceptance

/-- The types of errors, so that a caller can tell them apart without reading messages. -/
inductive ErrorType where
  | alreadyInitialized
  | backendFailed
  | dependencyMissing
  | invalidArgument
  | notARepository
  | notAProject
  | notFound
  | nothingToCommit
  | openFailed
  | stepFailed
  | toolMissing
  deriving DecidableEq

namespace ErrorType

def all : List ErrorType :=
  [.alreadyInitialized, .backendFailed, .dependencyMissing, .invalidArgument, .notARepository,
    .notAProject, .notFound, .nothingToCommit, .openFailed, .stepFailed, .toolMissing]

def name : ErrorType → Text
  | .alreadyInitialized => "ALREADY_INITIALIZED"
  | .backendFailed => "BACKEND_FAILED"
  | .dependencyMissing => "DEPENDENCY_MISSING"
  | .invalidArgument => "INVALID_ARGUMENT"
  | .notARepository => "NOT_A_GIT_REPO"
  | .notAProject => "NOT_A_PROJECT"
  | .notFound => "NOT_FOUND"
  | .nothingToCommit => "NOTHING_TO_COMMIT"
  | .openFailed => "OPEN_FAILED"
  | .stepFailed => "STEP_FAILED"
  | .toolMissing => "TOOL_MISSING"

/-- The type that a value names. -/
def ofValue (v : Value) : Except Fault ErrorType :=
  match v with
  | .list _ => .error .wrongKind
  | .object _ => .error .wrongKind
  | v =>
    match all.find? fun type => v.equals (.text type.name) with
    | some type => .ok type
    | none => .error (.invalid (.errorType v))

end ErrorType

/-- A file that a command made. -/
structure Artifact where
  path : Text
  mime : Text
  purpose : Text
  size : Option Int := none
  deriving DecidableEq

def Artifact.toValue (a : Artifact) : Value :=
  Value.record
    [("path", .text a.path), ("mime", .text a.mime), ("purpose", .text a.purpose),
      ("bytes", Value.ofInt? a.size)]

/-- What a command answers. -/
inductive Answer where
  | ok (data : Value) (artifacts : List Artifact) (truncated limits : Value)
  | error (type : ErrorType) (message details : Value)

/-- An answer, the command that gives it, and the version of its form. -/
structure Envelope where
  command : Value
  answer : Answer
  version : Value := "1"

namespace Envelope

/-- A good answer. -/
def ok (command : Text) (data : Value) : Envelope :=
  { command := .text command, answer := .ok data [] (.bool false) (.object []) }

/-- A good answer with the files that were made. -/
def okWith (command : Text) (data : Value) (artifacts : List Artifact) : Envelope :=
  { command := .text command, answer := .ok data artifacts (.bool false) (.object []) }

/-- An error. -/
def error (command : Text) (type : ErrorType) (message : Text) (details : Value) : Envelope :=
  { command := .text command, answer := .error type (.text message) details }

def isOk (e : Envelope) : Bool :=
  match e.answer with
  | .ok .. => true
  | .error .. => false

/-- A value, or an empty object in place of one that does not count as true. -/
def orEmpty (v : Value) : Value := v.orElse (.object [])

def toValue (e : Envelope) : Value :=
  match e.answer with
  | .ok data artifacts truncated limits =>
    Value.record
      [("ok", .bool true), ("schema_version", e.version), ("command", e.command),
        ("data", orEmpty data), ("artifacts", .list (artifacts.map Artifact.toValue)),
        ("truncated", truncated), ("limits", orEmpty limits)]
  | .error type message details =>
    Value.record
      [("ok", .bool false), ("schema_version", e.version), ("command", e.command),
        ("error", Value.record
          [("type", .text type.name), ("message", message), ("details", orEmpty details)])]

end Envelope

end Acceptance
