import Acceptance.Text.Printable

/-! # Quoted texts

How a text is shown inside a message: in single quotes, or in double quotes when it holds a single
quote and no double one, with everything unprintable escaped.
-/

namespace Acceptance

namespace Quoted

/-- The quote that goes around `t`. -/
def mark (t : Text) : CodePoint :=
  if t.contains ('\'' : CodePoint) && !t.contains ('"' : CodePoint) then '"' else '\''

/-- An escape by number, as short as the number allows. -/
def escape (c : CodePoint) : Text :=
  if c.val ≤ 0xFF then "\\x" ++ Text.paddedHex 2 c.val
  else if c.val ≤ 0xFFFF then "\\u" ++ Text.paddedHex 4 c.val
  else "\\U" ++ Text.paddedHex 8 c.val

/-- How one code point is written between the quotes `around`. -/
def written (around c : CodePoint) : Text :=
  if c = around || c = '\\' then ['\\', c]
  else if c = '\t' then "\\t"
  else if c = '\n' then "\\n"
  else if c = '\r' then "\\r"
  else if c.isPrintable then [c]
  else escape c

end Quoted

/-- The text in quotes. -/
def Text.quoted (t : Text) : Text :=
  let around := Quoted.mark t
  around :: t.flatMap (Quoted.written around) ++ [around]

end Acceptance
