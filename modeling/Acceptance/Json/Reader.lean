import Acceptance.Value.Display

/-! # Reading JSON

A value, blanks around it, and nothing else. Beyond the standard, `NaN`, `Infinity` and `-Infinity`
are numbers, and a string may hold lone surrogates. Of two entries with one key the first gives the
place and the last the value. Lists and objects are read only so many levels deep.

Each reader takes the text from its place on and answers with the text that is left, so the place of
a failure is known by how much is left of the whole.
-/

namespace Acceptance

namespace Json

/-! ## Failures -/

/-- What is wrong at a place. -/
inductive Problem where
  | byteOrderMark
  | expectingValue
  | expectingName
  | expectingColon
  | expectingComma
  | extraData
  | unterminatedString
  | controlCharacter
  | badEscape
  | badNumberedEscape
  deriving DecidableEq

def Problem.message : Problem → Text
  | .byteOrderMark => "Unexpected UTF-8 BOM (decode using utf-8-sig)"
  | .expectingValue => "Expecting value"
  | .expectingName => "Expecting property name enclosed in double quotes"
  | .expectingColon => "Expecting ':' delimiter"
  | .expectingComma => "Expecting ',' delimiter"
  | .extraData => "Extra data"
  | .unterminatedString => "Unterminated string starting at"
  | .controlCharacter => "Invalid control character at"
  | .badEscape => "Invalid \\escape"
  | .badNumberedEscape => "Invalid \\uXXXX escape"

/-- What holds other values. -/
inductive Container where
  | list
  | object
  deriving DecidableEq

/-- Why reading stopped, with the text from the place of the problem on. -/
inductive Failure where
  | malformed (problem : Problem) (left : Text)
  | longInteger (digits : Nat)
  | nestedTooDeep (container : Container)
  deriving DecidableEq

def fail {α : Type} (problem : Problem) (left : Text) : Except Failure (α × Text) :=
  .error (.malformed problem left)

/-! ## Blanks -/

def isBlank (c : CodePoint) : Bool := c = ' ' || c = '\t' || c = '\n' || c = '\r'

def skipBlanks (s : Text) : Text := s.dropWhile isBlank

/-! ## Strings -/

/-- A code point of a string, as itself or by its number. -/
inductive Unit where
  | plain (c : CodePoint)
  | numbered (c : CodePoint)
  deriving DecidableEq

/-- The code point that a letter after a backslash stands for. -/
def escaped? (c : CodePoint) : Option CodePoint :=
  if c = '"' || c = '\\' || c = '/' then some c
  else if c = 'b' then some ⟨8, by decide⟩
  else if c = 'f' then some ⟨12, by decide⟩
  else if c = 'n' then some '\n'
  else if c = 'r' then some '\r'
  else if c = 't' then some '\t'
  else none

/-- The number that four hexadecimal digits write. -/
def hexValue? (a b c d : CodePoint) : Option Nat := do
  some ((((← a.hexDigit?) * 16 + (← b.hexDigit?)) * 16 + (← c.hexDigit?)) * 16 + (← d.hexDigit?))

/-- The units up to the closing quote; `opened` is the text from the opening one on. -/
def readUnits (opened : Text) : Text → Except Failure (List Unit × Text)
  | [] => fail .unterminatedString opened
  | c :: rest =>
    if c = '"' then .ok ([], rest)
    else if c = '\\' then
      match rest with
      | [] => fail .unterminatedString opened
      | e :: after =>
        if e = 'u' then
          match after with
          | h₁ :: h₂ :: h₃ :: h₄ :: left =>
            match hexValue? h₁ h₂ h₃ h₄, left.isEmpty with
            | some n, false => do
              let (units, left) ← readUnits opened left
              .ok (.numbered (CodePoint.ofNatD n c) :: units, left)
            | _, _ => fail .badNumberedEscape (e :: after)
          | _ => fail .badNumberedEscape (e :: after)
        else
          match escaped? e with
          | some d => do
            let (units, left) ← readUnits opened after
            .ok (.plain d :: units, left)
          | none => fail .badEscape (c :: rest)
    else if c.val < 0x20 then fail .controlCharacter (c :: rest)
    else do
      let (units, left) ← readUnits opened rest
      .ok (.plain c :: units, left)

/-- The code point of two surrogates, if they make a pair. -/
def pair? (high low : CodePoint) : Option CodePoint :=
  if 0xD800 ≤ high.val && high.val < 0xDC00 && 0xDC00 ≤ low.val && low.val < 0xE000 then
    some (CodePoint.ofNatD (0x10000 + (high.val - 0xD800) * 0x400 + (low.val - 0xDC00)) high)
  else none

/-- The text of the units: two surrogates given by number, one right after the other, make one code
point. -/
def joinUnits : List Unit → Text
  | [] => []
  | .plain c :: rest => c :: joinUnits rest
  | .numbered high :: rest =>
    match rest with
    | .numbered low :: after =>
      match pair? high low with
      | some c => c :: joinUnits after
      | none => high :: joinUnits (.numbered low :: after)
    | rest => high :: joinUnits rest
  termination_by units => units.length

/-- The string after an opening quote. -/
def readString (opened rest : Text) : Except Failure (Text × Text) :=
  (readUnits opened rest).map fun (units, left) => (joinUnits units, left)

/-! ## Numbers -/

/-- The digits in front and the text after them. -/
def spanDigits (s : Text) : Text × Text := s.span CodePoint.isAsciiDigit

/-- The number that ASCII digits write. -/
def decimalValue (digits : Text) : Nat := digits.foldl (fun n c => n * 10 + (c.val - 0x30)) 0

/-- The digits of a whole number: a zero alone, or no zero in front. -/
def readWhole (s : Text) : Option (Text × Text) :=
  match s with
  | [] => none
  | c :: rest =>
    if c = '0' then some ([c], rest)
    else if c.isAsciiDigit then some (spanDigits s)
    else none

/-- The digits after a point, if there are any. -/
def readDecimals (s : Text) : Option (Text × Text) :=
  match s with
  | [] => none
  | c :: rest =>
    if c = '.' then
      let (digits, left) := spanDigits rest
      if digits.isEmpty then none else some (digits, left)
    else none

/-- The power of ten, if one is written. -/
def readPower (s : Text) : Option (Int × Text) :=
  match s with
  | [] => none
  | c :: rest =>
    if c = 'e' || c = 'E' then
      let (negative, rest) := match rest with
        | [] => (false, [])
        | d :: more => if d = '-' then (true, more) else (false, if d = '+' then more else rest)
      let (digits, left) := spanDigits rest
      if digits.isEmpty then none
      else
        let n : Int := decimalValue digits
        some (if negative then -n else n, left)
    else none

/-- A number: an integer, unless decimals or a power of ten follow. -/
def readNumber (s : Text) : Except Failure (Value × Text) :=
  let (negative, unsigned) := match s with
    | [] => (false, [])
    | c :: rest => if c = '-' then (true, rest) else (false, s)
  match readWhole unsigned with
  | none => fail .expectingValue s
  | some (whole, left) =>
    let decimals := readDecimals left
    let left := (decimals.map (·.2)).getD left
    let power := readPower left
    let left := (power.map (·.2)).getD left
    match decimals, power with
    | none, none =>
      if Value.mostDigits < whole.length then .error (.longInteger whole.length)
      else
        let n : Int := decimalValue whole
        .ok (.int (if negative then -n else n), left)
    | _, _ =>
      let digits := (decimals.map (·.1)).getD []
      let exponent := (power.map (·.1)).getD 0 - digits.length
      .ok (.real (Binary64.ofDecimal negative (decimalValue (whole ++ digits)) exponent), left)

/-! ## Words -/

/-- The values that have a name. -/
def words : List (Text × Value) :=
  [("null", .null), ("true", .bool true), ("false", .bool false), ("NaN", .real Binary64.nan),
    ("Infinity", .real (Binary64.infinity false)), ("-Infinity", .real (Binary64.infinity true))]

/-- The value whose name stands in front. -/
def readWord (s : Text) : Option (Value × Text) :=
  (words.find? fun w => Text.startsWith s w.1).map fun w => (w.2, s.drop w.1.length)

/-! ## Values -/

/-- The entries one after the other: a later one replaces the value of an earlier one. -/
def entriesOf (pairs : List (Text × Value)) : Entries :=
  pairs.foldl (fun entries p => entries.set p.1 p.2) []

/-- The name of an entry and the colon after it, with the blanks around the colon. -/
def readName (s : Text) : Except Failure (Text × Text) :=
  match s with
  | [] => fail .expectingName s
  | c :: rest =>
    if c = '"' then do
      let (name, left) ← readString s rest
      match skipBlanks left with
      | [] => fail .expectingColon []
      | d :: more =>
        if d = ':' then .ok (name, skipBlanks more) else fail .expectingColon (d :: more)
    else fail .expectingName s

/-- The most lists and objects that lie in one another. -/
def mostNested : Nat := 985

mutual

/-- A value, `fuel` bounding how many values and separators are read and `depth` how many lists and
objects lie in one another. -/
def readValue (fuel depth : Nat) (s : Text) : Except Failure (Value × Text) :=
  match fuel with
  | 0 => fail .expectingValue s
  | fuel + 1 =>
    match s with
    | [] => fail .expectingValue s
    | c :: rest =>
      if c = '"' then (readString s rest).map fun (t, left) => (.text t, left)
      else if c = '{' then
        match depth with
        | 0 => .error (.nestedTooDeep .object)
        | depth + 1 =>
          let inside := skipBlanks rest
          if inside.head? = some ('}' : CodePoint) then .ok (.object [], inside.drop 1)
          else
            (readEntries fuel depth inside).map fun (pairs, left) =>
              (.object (entriesOf pairs), left)
      else if c = '[' then
        match depth with
        | 0 => .error (.nestedTooDeep .list)
        | depth + 1 =>
          let inside := skipBlanks rest
          if inside.head? = some (']' : CodePoint) then .ok (.list [], inside.drop 1)
          else (readItems fuel depth inside).map fun (items, left) => (.list items, left)
      else
        match readWord s with
        | some found => .ok found
        | none => readNumber s

/-- The items of a list up to its closing bracket. -/
def readItems (fuel depth : Nat) (s : Text) : Except Failure (List Value × Text) :=
  match fuel with
  | 0 => fail .expectingValue s
  | fuel + 1 => do
    let (item, left) ← readValue fuel depth s
    match skipBlanks left with
    | [] => fail .expectingComma []
    | c :: rest =>
      if c = ']' then .ok ([item], rest)
      else if c = ',' then do
        let (items, left) ← readItems fuel depth (skipBlanks rest)
        .ok (item :: items, left)
      else fail .expectingComma (c :: rest)

/-- The entries of an object up to its closing brace. -/
def readEntries (fuel depth : Nat) (s : Text) : Except Failure (List (Text × Value) × Text) :=
  match fuel with
  | 0 => fail .expectingValue s
  | fuel + 1 => do
    let (name, left) ← readName s
    let (value, left) ← readValue fuel depth left
    match skipBlanks left with
    | [] => fail .expectingComma []
    | c :: rest =>
      if c = '}' then .ok ([(name, value)], rest)
      else if c = ',' then do
        let (pairs, left) ← readEntries fuel depth (skipBlanks rest)
        .ok ((name, value) :: pairs, left)
      else fail .expectingComma (c :: rest)

end

/-- The value of a whole document. -/
def readDocument (s : Text) : Except Failure Value :=
  if s.head? = some ⟨0xFEFF, by decide⟩ then .error (.malformed .byteOrderMark s)
  else do
    let (value, left) ← readValue (2 * s.length + 2) mostNested (skipBlanks s)
    match skipBlanks left with
    | [] => .ok value
    | left => .error (.malformed .extraData left)

/-! ## Errors -/

/-- Why a document was refused, with the place in lines, columns and code points. -/
inductive Error where
  | malformed (problem : Problem) (line column position : Nat)
  | longInteger (digits : Nat)
  | nestedTooDeep (container : Container)
  deriving DecidableEq

/-- The place of a failure in the document. -/
def Failure.located (document : Text) : Failure → Error
  | .longInteger digits => .longInteger digits
  | .nestedTooDeep container => .nestedTooDeep container
  | .malformed problem left =>
    let before := document.take (document.length - left.length)
    let isFeed : CodePoint → Bool := (· = '\n')
    let column := (before.reverse.takeWhile fun c => !isFeed c).length + 1
    .malformed problem (before.countP isFeed + 1) column before.length

/-- How deep nesting is told, whatever is read. -/
def tooDeep : Text := "maximum recursion depth exceeded"

def Container.name : Container → Text
  | .list => "array"
  | .object => "object"

def Error.message : Error → Text
  | .malformed problem line column position =>
    problem.message ++ ": line " ++ Text.ofNat line ++ " column " ++ Text.ofNat column ++
      " (char " ++ Text.ofNat position ++ ")"
  | .longInteger digits => Value.tooManyDigitsToRead digits
  | .nestedTooDeep container =>
    tooDeep ++ " while decoding a JSON " ++ container.name ++ " from a unicode string"

/-- The value that a document writes. -/
def read (document : Text) : Except Error Value :=
  (readDocument document).mapError (Failure.located document)

end Json

end Acceptance
