import Acceptance.Number.Shortest
import Acceptance.Time.Moment

/-! # Values

The values of a project file, a settings file or an answer. Objects keep the order of their entries.
Their keys are texts, but for the tallies of features whose priority is a number.
-/

namespace Acceptance

/-! ## Keys -/

/-- A key of an object. -/
inductive Key where
  | text (t : Text)
  | int (n : Int)
  | real (x : Binary64)
  | bool (b : Bool)
  deriving DecidableEq

instance : Coe Text Key := ⟨.text⟩
instance : Coe String Key := ⟨fun s => .text (Text.of s)⟩

/-- Where a number lies: a finite one in units of the smallest double. -/
inductive Position where
  | lowest
  | at (units : Int)
  | highest
  | nowhere
  deriving DecidableEq

/-- Does the first number come before the second? -/
def Position.before : Position → Position → Bool
  | .lowest, .lowest => false
  | .lowest, .at _ => true
  | .lowest, .highest => true
  | .at a, .at b => a < b
  | .at _, .highest => true
  | _, _ => false

namespace Key

/-- The position of a number; truth values count as 0 and 1, and texts have none. -/
def position? : Key → Option Position
  | .text _ => none
  | .int n => some (.at (n * Binary64.unitsInOne))
  | .bool b => some (.at (if b then Binary64.unitsInOne else 0))
  | .real x =>
    some <|
      if x.isNaN then .nowhere
      else if x.isInfinite then if x.negative then .lowest else .highest
      else .at x.signedUnits

/-- Keys that name the same entry: equal texts or equal numbers. -/
def same : Key → Key → Bool
  | .text a, .text b => a == b
  | a, b => a.position?.isSome && a.position? == b.position?

/-- Keys that are equal as values: what is no number differs from itself. -/
def equals (k l : Key) : Bool := k.same l && k.position? != some .nowhere

def isText : Key → Bool
  | .text _ => true
  | _ => false

/-- Texts by code point, numbers by value. -/
def before : Key → Key → Bool
  | .text a, .text b => !Text.le b a
  | a, b =>
    match a.position?, b.position? with
    | some p, some q => p.before q
    | _, _ => false

end Key

/-! ## Values -/

/-- A value. -/
inductive Value where
  | null
  | bool (b : Bool)
  | int (n : Int)
  | real (x : Binary64)
  | text (t : Text)
  | moment (m : Moment)
  | list (items : List Value)
  | object (entries : List (Key × Value))

instance : Coe Text Value := ⟨.text⟩
instance : Coe String Value := ⟨fun s => .text (Text.of s)⟩

/-- A key as a value. -/
def Key.toValue : Key → Value
  | .text t => .text t
  | .int n => .int n
  | .real x => .real x
  | .bool b => .bool b

/-- The entries of an object. -/
abbrev Entries := List (Key × Value)

namespace Entries

/-- The value under a key. -/
def get? (entries : Entries) (key : Text) : Option Value :=
  (entries.find? fun e => e.1 = .text key).map (·.2)

/-- The value under a key, or null. -/
def getD (entries : Entries) (key : Text) : Value := (entries.get? key).getD .null

/-- Is there an entry under the key? -/
def hasKey (entries : Entries) (key : Text) : Bool := (entries.get? key).isSome

/-- The entries with `value` under `key`: in its place, or at the end if the key is new. -/
def set : Entries → Text → Value → Entries
  | [], key, value => [(.text key, value)]
  | e :: rest, key, value =>
    if e.1 = .text key then (e.1, value) :: rest else e :: set rest key value

end Entries

namespace Value

/-- A text that may be missing. -/
def ofText? : Option Text → Value
  | none => .null
  | some t => .text t

/-- A number that may be missing. -/
def ofInt? : Option Int → Value
  | none => .null
  | some n => .int n

/-- An object with text keys. -/
def record (fields : List (Text × Value)) : Value := .object (fields.map fun f => (.text f.1, f.2))

/-- A list of texts. -/
def texts (ts : List Text) : Value := .list (ts.map .text)

/-- Does the value count as true? Null, zero and everything empty do not. -/
def isTruthy : Value → Bool
  | .null => false
  | .bool b => b
  | .int n => n != 0
  | .real x => !x.isZero
  | .text t => !t.isEmpty
  | .moment _ => true
  | .list items => !items.isEmpty
  | .object entries => !entries.isEmpty

/-- The value, or the other one if it does not count as true. -/
def orElse (v other : Value) : Value := if v.isTruthy then v else other

/-- The key that a value makes, if it can be one. -/
def key? : Value → Option Key
  | .text t => some (.text t)
  | .int n => some (.int n)
  | .real x => some (.real x)
  | .bool b => some (.bool b)
  | _ => none

/-! ## Equality

Numbers are equal by value, whatever their kind, and a truth value counts as 0 or 1. Objects are
equal if they have the same entries in any order.
-/

mutual

def equals : Value → Value → Bool
  | .null, .null => true
  | .moment m, .moment n => m == n
  | .list vs, .list ws => equalItems vs ws
  | .object d, .object e => d.length == e.length && equalEntries d e
  | v, w =>
    match v.key?, w.key? with
    | some k, some l => k.equals l
    | _, _ => false

def equalItems : List Value → List Value → Bool
  | [], [] => true
  | v :: vs, w :: ws => equals v w && equalItems vs ws
  | _, _ => false

/-- Are all these entries among the others? -/
def equalEntries : List (Key × Value) → List (Key × Value) → Bool
  | [], _ => true
  | (k, v) :: rest, others =>
    (match others.find? fun e => e.1.same k with
      | some e => equals v e.2
      | none => false) && equalEntries rest others

end

end Value

end Acceptance
