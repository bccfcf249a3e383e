/-! # Texts

A text is a list of code points. Lone surrogates are allowed, because a file may spell one as an
escape; they only fail when the text is encoded (`Text.Utf8`).
-/

namespace Acceptance

/-- One code point, a lone surrogate included. -/
structure CodePoint where
  val : Nat
  isLt : val < 0x110000
  deriving DecidableEq

namespace CodePoint

theorem toNat_lt (c : Char) : c.toNat < 0x110000 := by
  rcases c.valid with h | h
  · have : c.toNat < 0xD800 := h
    omega
  · exact h.2

/-- The code point of a character. -/
def ofChar (c : Char) : CodePoint := ⟨c.toNat, toNat_lt c⟩

instance : Coe Char CodePoint := ⟨ofChar⟩

/-- The code point numbered `n`, or `fallback` when there is none. -/
def ofNatD (n : Nat) (fallback : CodePoint) : CodePoint :=
  if h : n < 0x110000 then ⟨n, h⟩ else fallback

/-- Half of a surrogate pair standing alone. -/
def isSurrogate (c : CodePoint) : Bool := 0xD800 ≤ c.val && c.val < 0xE000

/-- An ASCII letter of either case. -/
def isAsciiLetter (c : CodePoint) : Bool :=
  (0x41 ≤ c.val && c.val ≤ 0x5A) || (0x61 ≤ c.val && c.val ≤ 0x7A)

/-- An ASCII digit. -/
def isAsciiDigit (c : CodePoint) : Bool := 0x30 ≤ c.val && c.val ≤ 0x39

/-- The value of a hexadecimal digit of either case. -/
def hexDigit? (c : CodePoint) : Option Nat :=
  if c.isAsciiDigit then some (c.val - 0x30)
  else if 0x41 ≤ c.val && c.val ≤ 0x46 then some (c.val - 0x41 + 10)
  else if 0x61 ≤ c.val && c.val ≤ 0x66 then some (c.val - 0x61 + 10)
  else none

/-- Does `c` stand in one of the closed ranges? -/
def isIn (c : CodePoint) (ranges : List (Nat × Nat)) : Bool :=
  ranges.any fun r => r.1 ≤ c.val && c.val ≤ r.2

end CodePoint

/-- A text. -/
abbrev Text := List CodePoint

namespace Text

/-- The text of a literal. -/
def of (s : String) : Text := s.toList.map CodePoint.ofChar

instance : Coe String Text := ⟨of⟩

/-! ## Looking into a text -/

/-- Does `part` occur somewhere in the text? -/
def has : Text → Text → Bool
  | [], part => part.isEmpty
  | c :: rest, part => part.isPrefixOf (c :: rest) || has rest part

/-- Does the text start with `part`? -/
def startsWith (t part : Text) : Bool := part.isPrefixOf t

/-- Does the text end with `part`? -/
def endsWith (t part : Text) : Bool := part.isSuffixOf t

/-- The text without its last `n` code points. -/
def dropEnd (t : Text) (n : Nat) : Text := t.take (t.length - n)

/-- The last `n` code points. -/
def takeEnd (t : Text) (n : Nat) : Text := t.drop (t.length - n)

/-- The text without the code points at its start that satisfy `p`. -/
def trimLeftWhere (p : CodePoint → Bool) (t : Text) : Text := t.dropWhile p

/-- The text without the code points at its end that satisfy `p`. -/
def trimRightWhere (p : CodePoint → Bool) (t : Text) : Text := (t.reverse.dropWhile p).reverse

/-- Order by code point, a text before its continuations. -/
def le : Text → Text → Bool
  | [], _ => true
  | _ :: _, [] => false
  | a :: s, b :: t => a.val < b.val || (a.val == b.val && le s t)

/-! ## Cutting and joining -/

/-- The part before the first `sep` and the part after it, if there is one. -/
def cutAt (sep : CodePoint) : Text → Text × Option Text
  | [] => ([], none)
  | c :: rest =>
    if c = sep then ([], some rest)
    else
      let (before, after) := cutAt sep rest
      (c :: before, after)

/-- The pieces between the occurrences of `sep`: one more than there are occurrences. -/
def splitOn (sep : CodePoint) : Text → List Text
  | [] => [[]]
  | c :: rest =>
    if c = sep then [] :: splitOn sep rest
    else match splitOn sep rest with
      | [] => [[c]]
      | piece :: pieces => (c :: piece) :: pieces

/-- The pieces with `sep` between them. -/
def joinWith (sep : Text) : List Text → Text
  | [] => []
  | [piece] => piece
  | piece :: pieces => piece ++ sep ++ joinWith sep pieces

/-! ## Numbers as text -/

/-- A number in decimal digits. -/
def ofNat (n : Nat) : Text := (Nat.toDigits 10 n).map CodePoint.ofChar

/-- An integer in decimal digits, a minus sign in front of a negative one. -/
def ofInt : Int → Text
  | .ofNat n => ofNat n
  | .negSucc n => '-' :: ofNat (n + 1)

/-- A number in at least `width` decimal digits. -/
def padded (width n : Nat) : Text :=
  let digits := ofNat n
  List.replicate (width - digits.length) ('0' : CodePoint) ++ digits

/-- A number in at least `width` lower-case hexadecimal digits. -/
def paddedHex (width n : Nat) : Text :=
  let digits : Text := (Nat.toDigits 16 n).map CodePoint.ofChar
  List.replicate (width - digits.length) ('0' : CodePoint) ++ digits

end Text

end Acceptance
