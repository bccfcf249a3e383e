import Acceptance.Order.RunSort
import Acceptance.Value.Display

/-! # Writing JSON

One layout for every document: entries in the order of their keys, two blanks for each level, a line
feed at the end, and code points beyond ASCII as they are.
-/

namespace Acceptance

namespace Json

/-! ## Order of entries -/

/-- Has the key a place among others? What is no number has none. -/
def hasPlace (k : Key) : Bool := k.position? != some .nowhere

/-- Puts an entry in front of the first that does not come before it. -/
def insertEntry (e : Key × Value) : Entries → Entries
  | [] => [e]
  | f :: rest => if f.1.before e.1 then f :: insertEntry e rest else e :: f :: rest

/-- The entries in the order of their keys. With a key that has no place among them, it depends on
the way of sorting where that one and others end up. -/
def sortEntries (entries : Entries) : Entries :=
  if entries.all (hasPlace ·.1) then entries.foldr insertEntry []
  else RunSort.sort (fun e f => e.1.before f.1) entries

mutual

/-- The value with the entries of every object in the order of their keys. -/
def ordered : Value → Value
  | .list items => .list (orderedItems items)
  | .object entries => .object (sortEntries (orderedEntries entries))
  | v => v

def orderedItems : List Value → List Value
  | [] => []
  | v :: rest => ordered v :: orderedItems rest

def orderedEntries : List (Key × Value) → List (Key × Value)
  | [] => []
  | (k, v) :: rest => (k, ordered v) :: orderedEntries rest

end

/-! ## What cannot be written -/

/-- Why a value cannot be written. -/
inductive Unwritable where
  /-- Texts and numbers as keys of one object have no order. -/
  | mixedKeys
  | longInteger
  /-- A date or time. -/
  | moment
  deriving DecidableEq

/-- Are there texts and others among the keys? -/
def areMixed (entries : Entries) : Bool :=
  entries.any (·.1.isText) && entries.any (!·.1.isText)

mutual

/-- The first thing in the way of writing, in the order of writing. -/
def unwritable? : Value → Option Unwritable
  | .int n => if Value.isLongInt n then some .longInteger else none
  | .moment _ => some .moment
  | .list items => unwritableIn? items
  | .object entries => if areMixed entries then some .mixedKeys else unwritableUnder? entries
  | _ => none

def unwritableIn? : List Value → Option Unwritable
  | [] => none
  | v :: rest => (unwritable? v).or (unwritableIn? rest)

def unwritableUnder? : List (Key × Value) → Option Unwritable
  | [] => none
  | (_, v) :: rest => (unwritable? v).or (unwritableUnder? rest)

end

/-! ## Text -/

/-- How a code point is written in a string. -/
def escaped (c : CodePoint) : Text :=
  if c = '"' || c = '\\' then ['\\', c]
  else if c = '\n' then "\\n"
  else if c = '\r' then "\\r"
  else if c = '\t' then "\\t"
  else if c.val = 8 then "\\b"
  else if c.val = 12 then "\\f"
  else if c.val < 0x20 then "\\u" ++ Text.paddedHex 4 c.val
  else [c]

def stringText (t : Text) : Text := "\"" ++ t.flatMap escaped ++ "\""

def realText (x : Binary64) : Text :=
  if x.isNaN then "NaN"
  else if x.isInfinite then if x.negative then "-Infinity" else "Infinity"
  else x.toText

/-- The name of an entry, before it is put in quotes. -/
def keyName : Key → Text
  | .text t => t
  | .int n => Text.ofInt n
  | .real x => realText x
  | .bool b => if b then "true" else "false"

/-- A line feed and the blanks of a level. -/
def newLine (level : Nat) : Text := '\n' :: List.replicate (2 * level) (' ' : CodePoint)

mutual

/-- The value as it stands at a level, and the text that follows it. -/
def layout (level : Nat) (v : Value) (after : Text) : Text :=
  match v with
  | .null => "null" ++ after
  | .bool b => (if b then "true" else "false") ++ after
  | .int n => Text.ofInt n ++ after
  | .real x => realText x ++ after
  | .text t => stringText t ++ after
  | .moment m => stringText m.iso ++ after
  | .list items =>
    if items.isEmpty then "[]" ++ after
    else "[" ++ layoutItems (level + 1) items (newLine level ++ ("]" ++ after))
  | .object entries =>
    if entries.isEmpty then "\x7b\x7d" ++ after
    else "\x7b" ++ layoutEntries (level + 1) entries (newLine level ++ ("\x7d" ++ after))

def layoutItems (level : Nat) (items : List Value) (after : Text) : Text :=
  match items with
  | [] => after
  | v :: rest =>
    newLine level ++ layout level v
      (if rest.isEmpty then after else "," ++ layoutItems level rest after)

def layoutEntries (level : Nat) (entries : List (Key × Value)) (after : Text) : Text :=
  match entries with
  | [] => after
  | (k, v) :: rest =>
    newLine level ++ (stringText (keyName k) ++ (": " ++ layout level v
      (if rest.isEmpty then after else "," ++ layoutEntries level rest after)))

end

/-- The document of a value. -/
def write (v : Value) : Except Unwritable Text :=
  let v := ordered v
  match unwritable? v with
  | some cause => .error cause
  | none => .ok (layout 0 v "\n")

end Json

end Acceptance
