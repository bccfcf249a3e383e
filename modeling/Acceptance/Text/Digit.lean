import Acceptance.Text.Basic

/-! # Decimal digits of every script

Each script has its ten digits in a row, so the table lists the zeros only.
-/

namespace Acceptance

/-- The zeros of the scripts that have decimal digits. -/
def digitZeros : List Nat :=
  [48, 1632, 1776, 1984, 2406, 2534, 2662, 2790, 2918, 3046, 3174, 3302, 3430, 3558, 3664, 3792,
    3872, 4160, 4240, 6112, 6160, 6470, 6608, 6784, 6800, 6992, 7088, 7232, 7248, 42528, 43216,
    43264, 43472, 43504, 43600, 44016, 65296, 66720, 68912, 69734, 69872, 69942, 70096, 70384,
    70736, 70864, 71248, 71360, 71472, 71904, 72016, 72784, 73040, 73120, 92768, 92864, 93008,
    120782, 120792, 120802, 120812, 120822, 123200, 123632, 125264, 130032]

namespace CodePoint

/-- The value of a decimal digit of any script. -/
def digit? (c : CodePoint) : Option Nat :=
  (digitZeros.find? fun first => first ≤ c.val && c.val < first + 10).map (c.val - ·)

/-- A decimal digit of any script. -/
def isDigit (c : CodePoint) : Bool := c.digit?.isSome

end CodePoint

/-- The number that a run of decimal digits writes; anything else counts as the digit zero. -/
def Text.digitsValue (t : Text) : Nat := t.foldl (fun n c => n * 10 + c.digit?.getD 0) 0

end Acceptance
