import Acceptance.Machine.Basic

/-! # Run ids

A run id is a number in 26 characters of base 32, in the alphabet without I, L, O and U.
-/

namespace Acceptance

namespace RunId

/-- The digits of base 32. -/
def alphabet : Text := "0123456789ABCDEFGHJKMNPQRSTVWXYZ"

/-- The last `count` digits of a number in base 32. -/
def digits (n : Nat) : Nat → Text
  | 0 => []
  | count + 1 => digits (n / 32) count ++ [alphabet.getD (n % 32) '0']

/-- What a run id starts with. -/
def start : Text := "run_"

/-- The id of the run number `n`. -/
def ofNat (n : Nat) : Text := start ++ digits n 26

/-- The id of the next run. -/
def next : Task Text := do
  Task.change fun m => { m with runs := m.runs + 1 }
  Task.read fun m => ofNat m.runs

/-- A digit or a capital letter. -/
def isIdChar (c : CodePoint) : Bool := c.isAsciiDigit || (0x41 ≤ c.val && c.val ≤ 0x5A)

/-- Does the text have the form of a run id? -/
def isRunId (t : Text) : Bool :=
  Text.startsWith t start && t.length = start.length + 26 && (t.drop start.length).all isIdChar

end RunId

end Acceptance
