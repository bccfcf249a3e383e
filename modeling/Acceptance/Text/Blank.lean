import Acceptance.Text.Basic

/-! # Blanks

The code points that count as white space, and trimming by them.
-/

namespace Acceptance

/-- The ranges of white space. -/
def blankRanges : List (Nat × Nat) :=
  [(9, 13), (28, 32), (133, 133), (160, 160), (5760, 5760), (8192, 8202), (8232, 8233),
    (8239, 8239), (8287, 8287), (12288, 12288)]

/-- White space of any kind: ASCII, the information separators, and the Unicode spaces. -/
def CodePoint.isBlank (c : CodePoint) : Bool := c.isIn blankRanges

/-- White space that may stand around a number: any but the information separators. -/
def CodePoint.isNumberBlank (c : CodePoint) : Bool := c.isBlank && !(28 ≤ c.val && c.val ≤ 31)

namespace Text

/-- The text without blanks at its start. -/
def trimLeft (t : Text) : Text := t.trimLeftWhere CodePoint.isBlank

/-- The text without blanks at its end. -/
def trimRight (t : Text) : Text := t.trimRightWhere CodePoint.isBlank

/-- The text without blanks at either end. -/
def trim (t : Text) : Text := trimRight (trimLeft t)

/-- The text without the blanks that may stand around a number. -/
def trimAroundNumber (t : Text) : Text :=
  (t.trimLeftWhere CodePoint.isNumberBlank).trimRightWhere CodePoint.isNumberBlank

/-- Are there no code points but blanks? -/
def isBlank (t : Text) : Bool := t.all CodePoint.isBlank

end Text

end Acceptance
