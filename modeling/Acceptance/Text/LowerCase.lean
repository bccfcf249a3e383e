import Acceptance.Text.LowerCaseTable

/-! # Lower-casing

Capitals map to their small letters one to one, with two exceptions: the dotted capital I becomes
two code points, and a sigma at the end of a word takes its final form.
-/

namespace Acceptance

namespace CodePoint

/-- The small letter of a capital, and every other code point as it is. -/
def lower (c : CodePoint) : CodePoint :=
  match capitalRuns.find? fun (first, last, step, _) =>
      first ≤ c.val && c.val ≤ last && (c.val - first) % step == 0 with
  | some (_, _, _, distance) => ofNatD (c.val + distance).toNat c
  | none => c

/-- A letter that has case. -/
def isCased (c : CodePoint) : Bool := c.isIn casedRanges

/-- A code point that a sigma looks past. -/
def isCaseIgnorable (c : CodePoint) : Bool := c.isIn caseIgnorableRanges

/-- The dotted capital I. -/
def dottedCapitalI : CodePoint := ⟨0x130, by decide⟩

/-- The combining dot above. -/
def dotAbove : CodePoint := ⟨0x307, by decide⟩

end CodePoint

namespace Text

/-- Is the nearest code point that a sigma does not look past a cased letter? -/
def meetsCased (t : Text) : Bool :=
  match t.dropWhile CodePoint.isCaseIgnorable with
  | [] => false
  | c :: _ => c.isCased

/-- The lower case of one code point, given what stands before it (nearest first) and after it. -/
def lowerAt (before : Text) (c : CodePoint) (after : Text) : Text :=
  if c = 'Σ' then
    if meetsCased before && !meetsCased after then ['ς'] else ['σ']
  else if c = CodePoint.dottedCapitalI then ['i', CodePoint.dotAbove]
  else [c.lower]

/-- The lower case of what follows `before` (nearest first). -/
def lowerAfter (before : Text) : Text → Text
  | [] => []
  | c :: rest => lowerAt before c rest ++ lowerAfter (c :: before) rest

/-- The text in lower case. -/
def lower (t : Text) : Text := lowerAfter [] t

end Text

end Acceptance
