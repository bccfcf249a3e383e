import Acceptance.Toml.Scalar

/-! # The document of a settings file

Tables nested by their keys, and what has been said about each key: that a table header names it, or
that it holds an inline value, which nothing may change later.
-/

namespace Acceptance

namespace Toml

/-- What is known of a key. -/
inductive Mark where
  /-- A header or a dotted key made it a table. -/
  | explicit
  /-- It holds an inline table or a list. -/
  | frozen
  /-- The table of a key/value line becomes explicit when the next header comes. -/
  | pending
  deriving DecidableEq

structure Document where
  entries : Entries
  marks : List (List Text × Mark)

namespace Document

def empty : Document := { entries := [], marks := [] }

def isExplicit (d : Document) (key : List Text) : Bool := d.marks.contains (key, .explicit)

/-- Is the key, or one that it lies under, frozen? -/
def isFrozen (d : Document) (key : List Text) : Bool :=
  d.marks.any fun m => m.2 = .frozen && m.1.isPrefixOf key

def mark (d : Document) (key : List Text) (m : Mark) : Document :=
  { d with marks := (key, m) :: d.marks }

/-- Forgets what is known of the key and of all that lies under it. -/
def forget (d : Document) (key : List Text) : Document :=
  { d with marks := d.marks.filter fun m => !key.isPrefixOf m.1 }

/-- Makes the pending tables explicit. -/
def settle (d : Document) : Document :=
  { d with marks := d.marks.map fun m => (m.1, if m.2 = .pending then .explicit else m.2) }

end Document

/-! ## Nested tables -/

/-- Changes the table at a path by `change`, making the tables on the way that are missing. Where a
list of tables is met and `throughLists` is set, the way goes on in the last of them. -/
def changeAt (throughLists : Bool) (change : Entries → Option Entries) :
    List Text → Entries → Option Entries
  | [], entries => change entries
  | k :: path, entries =>
    match entries.get? k with
    | none => (changeAt throughLists change path []).map fun inner => entries.set k (.object inner)
    | some (.object inner) =>
      (changeAt throughLists change path inner).map fun inner => entries.set k (.object inner)
    | some (.list items) =>
      match throughLists, items.getLast? with
      | true, some (.object inner) =>
        (changeAt throughLists change path inner).map fun inner =>
          entries.set k (.list (items.dropLast ++ [.object inner]))
      | _, _ => none
    | some _ => none

/-- Adds an entry that is not there yet. -/
def addNew (key : Text) (value : Value) (entries : Entries) : Option Entries :=
  if entries.hasKey key then none else some (entries.set key value)

/-- Adds an empty table to a list of tables. -/
def addTable (key : Text) (entries : Entries) : Option Entries :=
  match entries.get? key with
  | none => some (entries.set key (.list [.object []]))
  | some (.list items) => some (entries.set key (.list (items ++ [.object []])))
  | some _ => none

/-- The parts of a key but the last, and the last. -/
def parentAndLast (key : List Text) : List Text × Text := (key.dropLast, key.getLastD [])

/-- Is the value a list or a table? -/
def isContainer : Value → Bool
  | .list _ => true
  | .object _ => true
  | _ => false

namespace Document

/-- A header that names a table. -/
def openTable (d : Document) (key : List Text) : Except Failure Document :=
  let d := d.settle
  if d.isExplicit key || d.isFrozen key then .error .malformed
  else
    match changeAt true some key d.entries with
    | some entries => .ok { d.mark key .explicit with entries }
    | none => .error .malformed

/-- A header that adds a table to a list. -/
def openListItem (d : Document) (key : List Text) : Except Failure Document :=
  let d := d.settle
  if d.isFrozen key then .error .malformed
  else
    let (parent, last) := parentAndLast key
    match changeAt true (addTable last) parent d.entries with
    | some entries => .ok { (d.forget key).mark key .explicit with entries }
    | none => .error .malformed

/-- The proper prefixes of a key that are not empty, each behind the header. -/
def pathsTo (header key : List Text) : List (List Text) :=
  (List.range (key.length - 1)).map fun i => header ++ key.take (i + 1)

/-- A key/value line under a header. -/
def assign (d : Document) (header key : List Text) (value : Value) : Except Failure Document :=
  let paths := pathsTo header key
  let (parent, last) := parentAndLast key
  if paths.any d.isExplicit || d.isFrozen (header ++ parent) then .error .malformed
  else
    match changeAt true (addNew last value) (header ++ parent) d.entries with
    | some entries =>
      let d := paths.foldl (fun d path => d.mark path .pending) { d with entries }
      .ok (if isContainer value then d.mark (header ++ key) .frozen else d)
    | none => .error .malformed

/-- An entry of an inline table. -/
def assignInline (d : Document) (key : List Text) (value : Value) : Except Failure Document :=
  let (parent, last) := parentAndLast key
  if d.isFrozen key then .error .malformed
  else
    match changeAt false (addNew last value) parent d.entries with
    | some entries =>
      let d := { d with entries }
      .ok (if isContainer value then d.mark key .frozen else d)
    | none => .error .malformed

end Document

end Toml

end Acceptance
