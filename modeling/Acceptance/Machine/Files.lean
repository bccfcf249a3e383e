import Acceptance.Fault
import Acceptance.Machine.Path

/-! # Files

A tree of directories and files, as a list of places and what is there. A place is the list of names
that leads to it from the root, which is always a directory.
-/

namespace Acceptance

/-- Where something is. -/
abbrev Place := List Text

/-- What is at a place. -/
inductive Node where
  | directory
  | file (content : List UInt8) (executable : Bool)
  deriving DecidableEq

/-- The places that are taken. -/
abbrev FileTree := List (Place × Node)

namespace FileTree

/-! ## Places -/

/-- What is at a place, if it is taken. -/
def get? (files : FileTree) (place : Place) : Option Node :=
  if place.isEmpty then some .directory
  else (files.find? fun e => e.1 = place).map (·.2)

/-- The tree with `node` at a place. -/
def put : FileTree → Place → Node → FileTree
  | [], place, node => [(place, node)]
  | e :: rest, place, node =>
    if e.1 = place then (place, node) :: rest else e :: put rest place node

/-- The tree without a place and all below it. -/
def remove (files : FileTree) (place : Place) : FileTree :=
  files.filter fun e => !place.isPrefixOf e.1

/-- The longest name of a file, in bytes. -/
def longestName : Nat := 255

/-- The longest path, in bytes. -/
def longestPath : Nat := 4095

def byteLength (t : Text) : Nat := (t.flatMap Utf8.nameBytesOf).length

/-- The place that is reached from a directory by the names. All but the last must lead to
directories. -/
def walk (files : FileTree) : Place → List Text → Except FileProblem Place
  | place, [] => .ok place
  | place, name :: names =>
    match files.get? place with
    | none => .error .missing
    | some (.file ..) => .error .notADirectory
    | some .directory =>
      if name = Text.of ".." then walk files place.dropLast names
      else if longestName < byteLength name then .error .nameTooLong
      else walk files (place ++ [Utf8.settledName name]) names

/-- The place that a path names, seen from a directory. -/
def locate (files : FileTree) (directory : Place) (path : Path) : Except FileProblem Place :=
  if longestPath < byteLength path.toText then .error .nameTooLong
  else walk files (if path.isAbsolute then [] else directory) path.parts

/-- Makes the directory at a place and those above it that are missing, as far as no file is in the
way. -/
def addDirectories (files : FileTree) (place : Place) : FileTree :=
  (List.range place.length).foldl (fun files i =>
    let above := place.take (i + 1)
    if (files.get? above).isSome then files else files.put above .directory) files

/-- Puts a file at a place, making the directories above it. -/
def addFile (files : FileTree) (place : Place) (content : List UInt8) : FileTree :=
  (files.addDirectories place.dropLast).put place (.file content false)

/-! ## Directories -/

/-- Makes one directory. -/
def makeDirectory (files : FileTree) (directory : Place) (path : Path) :
    Except FileProblem FileTree := do
  let place ← files.locate directory path
  match files.get? place with
  | some _ => .error .alreadyThere
  | none => .ok (files.put place .directory)

/-- Is there a directory at the path? -/
def isDirectory (files : FileTree) (directory : Place) (path : Path) : Bool :=
  match files.locate directory path with
  | .ok place => files.get? place = some .directory
  | .error _ => false

/-- A path that is refused, and why. -/
abbrev Refusal := FileProblem × Path

/-- Makes the directory at a path unless it is there. -/
def ensureOne (files : FileTree) (directory : Place) (path : Path) : FileTree × Option Refusal :=
  match files.makeDirectory directory path with
  | .ok files => (files, none)
  | .error problem =>
    if problem ≠ .missing && files.isDirectory directory path then (files, none)
    else (files, some (problem, path))

/-- Makes the directory at a path and those above it that are missing; the parts come last first.
Directories that were made stay, also when a later one is refused. -/
def ensureParts (files : FileTree) (directory : Place) (root : Text) :
    List Text → FileTree × Option Refusal
  | [] => files.ensureOne directory { root, parts := [] }
  | last :: above =>
    let path : Path := { root, parts := (last :: above).reverse }
    match files.makeDirectory directory path with
    | .error .missing =>
      match ensureParts files directory root above with
      | (files, none) => files.ensureOne directory path
      | stopped => stopped
    | _ => files.ensureOne directory path

/-- Makes the directory at a path and those above it, unless they are there. -/
def ensure (files : FileTree) (directory : Place) (path : Path) : FileTree × Option Refusal :=
  files.ensureParts directory path.root path.parts.reverse

/-! ## Files -/

/-- The bytes of the file at a path. -/
def content (files : FileTree) (directory : Place) (path : Path) :
    Except FileProblem (List UInt8) := do
  let place ← files.locate directory path
  match files.get? place with
  | some (.file content _) => .ok content
  | some .directory => .error .isADirectory
  | none => .error .missing

/-- The tree with a new content of the file at a path; the file stays executable if it was. -/
def write (files : FileTree) (directory : Place) (path : Path) (content : List UInt8) :
    Except FileProblem FileTree := do
  let place ← files.locate directory path
  match files.get? place with
  | some (.file _ executable) => .ok (files.put place (.file content executable))
  | some .directory => .error .isADirectory
  | none => .ok (files.put place (.file content false))

/-- The tree with the file at a path made executable. -/
def makeExecutable (files : FileTree) (directory : Place) (path : Path) :
    Except FileProblem FileTree := do
  let place ← files.locate directory path
  match files.get? place with
  | some (.file content _) => .ok (files.put place (.file content true))
  | some .directory => .ok files
  | none => .error .missing

/-- The tree without the file at a path. -/
def removeFile (files : FileTree) (directory : Place) (path : Path) :
    Except FileProblem FileTree := do
  let place ← files.locate directory path
  match files.get? place with
  | some (.file ..) => .ok (files.remove place)
  | some .directory => .error .isADirectory
  | none => .error .missing

/-! ## Listings -/

/-- A name with a mark for its kind: a slash for a directory, a star for an executable file. -/
def marked (name : Text) : Node → Text
  | .directory => name ++ "/"
  | .file _ true => name ++ "*"
  | .file _ false => name

/-- What is below a place, by the paths from there. -/
def listing (files : FileTree) (place : Place) : List Text :=
  let below := files.filterMap fun (p, node) =>
    if place.isPrefixOf p && place.length < p.length then
      some (marked (Text.joinWith "/" (p.drop place.length)) node)
    else none
  below.mergeSort Text.le

end FileTree

end Acceptance
