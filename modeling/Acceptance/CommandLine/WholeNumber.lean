import Acceptance.Text.Blank
import Acceptance.Text.Digit

/-! # Whole numbers on a command line

How a whole number from 1 on may be written behind an option: with blanks around it, a plus sign
and zeros in front, single underscores between its digits, and after a point zeros, at least one of
them.
-/

namespace Acceptance

namespace WholeNumber

/-- The most digits that are read, zeros in front not counted. -/
def mostDigits : Nat := 4300

/-- What stands in front of the first digit that counts. -/
def isFiller (c : CodePoint) : Bool := c = '0' || c = '_'

/-- The digits without the underscores; one underscore may stand between two digits. -/
def joinDigits? : Text → Option Text
  | [] => none
  | [c] => if c.isAsciiDigit then some [c] else none
  | c :: d :: rest =>
    if !c.isAsciiDigit then none
    else if d = '_' then (joinDigits? rest).map (c :: ·)
    else (joinDigits? (d :: rest)).map (c :: ·)

/-- The number before the point, if there are zeros after it and nothing else. -/
def withoutDecimals? (t : Text) : Option Text :=
  match Text.cutAt '.' t with
  | (whole, none) => some whole
  | (whole, some decimals) =>
    if !decimals.isEmpty && decimals.all (· = '0') then some whole else none

/-- The digits of a number from 1 on, from the first that is no zero. -/
def digits? (t : Text) : Option Text := do
  let t := Text.trimAroundNumber t
  let unsigned := if t.head? = some ('+' : CodePoint) then t.drop 1 else t
  if unsigned.head?.any CodePoint.isAsciiDigit then
    let whole ← withoutDecimals? (unsigned.dropWhile isFiller)
    joinDigits? whole
  else none

/-- The number from 1 on that a text writes. -/
def read? (t : Text) : Option Nat :=
  match digits? t with
  | some digits =>
    if digits.length ≤ mostDigits then some (Text.digitsValue digits) else none
  | none => none

end WholeNumber

end Acceptance
