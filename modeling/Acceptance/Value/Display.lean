import Acceptance.Text.Quoted
import Acceptance.Value.Basic

/-! # Values as text

A value inside a message: a text stands for itself, and inside lists and objects it is quoted.
-/

namespace Acceptance

/-- The form of a key. -/
def Key.quoted : Key → Text
  | .text t => Text.quoted t
  | .int n => Text.ofInt n
  | .real x => x.toText
  | .bool b => if b then "True" else "False"

namespace Value

mutual

/-- The form inside a list or an object. -/
def quoted : Value → Text
  | .null => "None"
  | .bool b => if b then "True" else "False"
  | .int n => Text.ofInt n
  | .real x => x.toText
  | .text t => Text.quoted t
  | .moment m => m.quoted
  | .list items => "[" ++ Text.joinWith ", " (quotedItems items) ++ "]"
  | .object entries => "\x7b" ++ Text.joinWith ", " (quotedEntries entries) ++ "\x7d"

def quotedItems : List Value → List Text
  | [] => []
  | v :: rest => v.quoted :: quotedItems rest

def quotedEntries : List (Key × Value) → List Text
  | [] => []
  | (k, v) :: rest => (k.quoted ++ ": " ++ v.quoted) :: quotedEntries rest

end

/-- The form on its own. -/
def shown : Value → Text
  | .text t => t
  | .moment m => m.shown
  | v => v.quoted

/-! ## Numbers that are too long

An integer is written only if it has at most 4300 digits.
-/

/-- The most digits that an integer is read or written with. -/
def mostDigits : Nat := 4300

/-- Does the integer have more digits than are written? -/
def isLongInt (n : Int) : Bool := tenTo mostDigits ≤ n.natAbs

/-- Why an integer with that many digits is not read. -/
def tooManyDigitsToRead (digits : Nat) : Text :=
  "Exceeds the limit (4300 digits) for integer string conversion: value has " ++
    Text.ofNat digits ++ " digits; use sys.set_int_max_str_digits() to increase the limit"

/-- Why an integer with more digits is not written. -/
def tooManyDigitsToWrite : Text :=
  "Exceeds the limit (4300 digits) for integer string conversion; " ++
    "use sys.set_int_max_str_digits() to increase the limit"

mutual

/-- Is there an integer in the value that is too long to be written? -/
def hasLongInt : Value → Bool
  | .int n => isLongInt n
  | .list items => anyLongInt items
  | .object entries => anyLongEntry entries
  | _ => false

def anyLongInt : List Value → Bool
  | [] => false
  | v :: rest => v.hasLongInt || anyLongInt rest

def anyLongEntry : List (Key × Value) → Bool
  | [] => false
  | (_, v) :: rest => v.hasLongInt || anyLongEntry rest

end

end Value

end Acceptance
