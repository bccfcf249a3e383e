import Acceptance.Value.Display

/-! # Strings, numbers and times of a settings file

The texts that a settings file (TOML 1.0) may hold as keys and plain values. Line ends are line
feeds here; `Toml.Reader` sees to that.
-/

namespace Acceptance

namespace Toml

/-- Why a settings file is refused. -/
inductive Failure where
  | malformed
  | longInteger (digits : Nat)
  | nestedTooDeep
  deriving DecidableEq

/-! ## Characters -/

def isBlank (c : CodePoint) : Bool := c = ' ' || c = '\t'

def isBlankOrFeed (c : CodePoint) : Bool := isBlank c || c = '\n'

def skipBlanks (s : Text) : Text := s.dropWhile isBlank

/-- A control character other than a tab. -/
def isControl (c : CodePoint) : Bool := (c.val < 0x20 && c.val != 9) || c.val == 0x7F

/-- A character that a key may hold without quotes. -/
def isBare (c : CodePoint) : Bool := c.isAsciiLetter || c.isAsciiDigit || c = '-' || c = '_'

/-! ## Strings -/

/-- A literal string up to its closing quote. -/
def readLiteral : Text → Except Failure (Text × Text)
  | [] => .error .malformed
  | c :: rest =>
    if c = '\'' then .ok ([], rest)
    else if isControl c then .error .malformed
    else (readLiteral rest).map fun (t, left) => (c :: t, left)

/-- A literal string over several lines, up to its three closing quotes. -/
def readLongLiteral : Text → Except Failure (Text × Text)
  | [] => .error .malformed
  | c :: rest =>
    if Text.startsWith (c :: rest) "'''" then .ok ([], rest.drop 2)
    else if isControl c && c ≠ '\n' then .error .malformed
    else (readLongLiteral rest).map fun (t, left) => (c :: t, left)

/-- The number that hexadecimal digits write. -/
def hexValue? (digits : Text) : Option Nat :=
  digits.foldl (fun n c => do some ((← n) * 16 + (← c.hexDigit?))) (some 0)

/-- The code point given by `count` hexadecimal digits. -/
def readNumbered (count : Nat) (s : Text) : Except Failure (Text × Text) :=
  if s.length < count then .error .malformed
  else
    match hexValue? (s.take count) with
    | none => .error .malformed
    | some n =>
      if h : n < 0x110000 then
        let c : CodePoint := ⟨n, h⟩
        if c.isSurrogate then .error .malformed else .ok ([c], s.drop count)
      else .error .malformed

/-- What follows a backslash at the end of a line: all blanks and line ends up to the next character
are left out. -/
def skipLineEnd (s : Text) : Except Failure (Text × Text) :=
  match skipBlanks s with
  | [] => .ok ([], [])
  | c :: rest =>
    if c = '\n' then .ok ([], rest.dropWhile isBlankOrFeed) else .error .malformed

/-- What an escape stands for; `s` is what follows the backslash. -/
def readEscape (long : Bool) (s : Text) : Except Failure (Text × Text) :=
  match s with
  | [] => .error .malformed
  | c :: rest =>
    if long && isBlankOrFeed c then skipLineEnd s
    else if c = 'u' then readNumbered 4 rest
    else if c = 'U' then readNumbered 8 rest
    else if c = 'b' then .ok (['\x08'], rest)
    else if c = 't' then .ok (['\t'], rest)
    else if c = 'n' then .ok (['\n'], rest)
    else if c = 'f' then .ok (['\x0c'], rest)
    else if c = 'r' then .ok (['\r'], rest)
    else if c = '"' || c = '\\' then .ok ([c], rest)
    else .error .malformed

/-- A basic string up to its closing quote, or quotes if it is `long`; `fuel` bounds its length. -/
def readBasic (long : Bool) (fuel : Nat) (s : Text) : Except Failure (Text × Text) :=
  match fuel, s with
  | 0, _ => .error .malformed
  | _, [] => .error .malformed
  | fuel + 1, c :: rest =>
    if c = '"' && !long then .ok ([], rest)
    else if long && Text.startsWith (c :: rest) "\"\"\"" then .ok ([], rest.drop 2)
    else if c = '\\' then do
      let (head, left) ← readEscape long rest
      let (tail, left) ← readBasic long fuel left
      .ok (head ++ tail, left)
    else if isControl c && !(long && c = '\n') then .error .malformed
    else (readBasic long fuel rest).map fun (t, left) => (c :: t, left)

/-- Up to two more quotes belong to a long string whose closing quotes are four or five. -/
def withMoreQuotes (quote : CodePoint) (t s : Text) : Text × Text :=
  let more := (s.take 2).takeWhile (· = quote)
  (t ++ more, s.drop more.length)

/-- A long string after its three opening quotes. A line feed right after them is left out. -/
def readLong (quote : CodePoint) (s : Text) : Except Failure (Text × Text) := do
  let s := if s.head? = some ('\n' : CodePoint) then s.drop 1 else s
  let (t, left) ←
    if quote = '"' then readBasic true (s.length + 1) s else readLongLiteral s
  .ok (withMoreQuotes quote t left)

/-- A string of any kind, or `none` if none starts here. -/
def readString (s : Text) : Option (Except Failure (Text × Text)) :=
  if Text.startsWith s "\"\"\"" then some (readLong '"' (s.drop 3))
  else if Text.startsWith s "'''" then some (readLong '\'' (s.drop 3))
  else if Text.startsWith s "\"" then some (readBasic false s.length (s.drop 1))
  else if Text.startsWith s "'" then some (readLiteral (s.drop 1))
  else none

/-! ## Keys -/

/-- One part of a key. -/
def readKeyPart (s : Text) : Except Failure (Text × Text) :=
  match s with
  | [] => .error .malformed
  | c :: rest =>
    if isBare c then .ok (s.span isBare)
    else if c = '\'' then readLiteral rest
    else if c = '"' then readBasic false s.length rest
    else .error .malformed

/-- A key, its parts joined by points; blanks may stand around a point and after the key. -/
def readKeyParts (fuel : Nat) (s : Text) : Except Failure (List Text × Text) :=
  match fuel with
  | 0 => .error .malformed
  | fuel + 1 => do
    let (part, left) ← readKeyPart s
    match skipBlanks left with
    | [] => .ok ([part], [])
    | c :: rest =>
      if c = '.' then do
        let (parts, left) ← readKeyParts fuel (skipBlanks rest)
        .ok (part :: parts, left)
      else .ok ([part], c :: rest)

def readKey (s : Text) : Except Failure (List Text × Text) := readKeyParts (s.length + 1) s

/-! ## Numbers -/

/-- More digits, each with an underscore before it or not. -/
def moreDigits (isDigit : CodePoint → Bool) : Text → Text × Text
  | [] => ([], [])
  | c :: rest =>
    if isDigit c then
      let (digits, left) := moreDigits isDigit rest
      (c :: digits, left)
    else if c = '_' then
      match rest with
      | [] => ([], [c])
      | d :: after =>
        if isDigit d then
          let (digits, left) := moreDigits isDigit after
          (d :: digits, left)
        else ([], c :: d :: after)
    else ([], c :: rest)

/-- Digits, the first of them without an underscore before it. -/
def someDigits (isDigit : CodePoint → Bool) (s : Text) : Option (Text × Text) :=
  match s with
  | [] => none
  | c :: _ => if isDigit c then some (moreDigits isDigit s) else none

def digitsValue (base : Nat) (digits : Text) : Nat :=
  digits.foldl (fun n c => n * base + c.hexDigit?.getD 0) 0

/-- The bases other than ten, by their letter. -/
def bases : List (CodePoint × Nat) := [('x', 16), ('b', 2), ('o', 8)]

/-- A digit of a base. -/
def isDigitOf (base : Nat) (c : CodePoint) : Bool :=
  match c.hexDigit? with
  | some n => n < base
  | none => false

/-- A whole number in a base other than ten. -/
def readBased (s : Text) : Option (Value × Text) :=
  match s with
  | zero :: letter :: rest =>
    if zero = '0' then
      match bases.find? fun b => b.1 = letter with
      | some (_, base) =>
        (someDigits (isDigitOf base) rest).map fun (digits, left) =>
          (.int (digitsValue base digits : Nat), left)
      | none => none
    else none
  | _ => none

/-- A sign, if there is one. -/
def readSign (s : Text) : Bool × Text :=
  match s with
  | [] => (false, [])
  | c :: rest => if c = '-' then (true, rest) else if c = '+' then (false, rest) else (false, s)

/-- The digits of a whole number in base ten: a zero alone, or no zero in front. -/
def readWhole (s : Text) : Option (Text × Text) :=
  match s with
  | [] => none
  | c :: rest => if c = '0' then some ([c], rest) else someDigits CodePoint.isAsciiDigit s

/-- The digits after a point. -/
def readDecimals (s : Text) : Option (Text × Text) :=
  match s with
  | [] => none
  | c :: rest => if c = '.' then someDigits CodePoint.isAsciiDigit rest else none

/-- A power of ten. -/
def readPower (s : Text) : Option (Int × Text) :=
  match s with
  | [] => none
  | c :: rest =>
    if c = 'e' || c = 'E' then
      let (negative, rest) := readSign rest
      (someDigits CodePoint.isAsciiDigit rest).map fun (digits, left) =>
        let n : Int := digitsValue 10 digits
        (if negative then -n else n, left)
    else none

/-- A number in base ten: an integer, unless decimals or a power of ten follow. -/
def readDecimal (s : Text) : Option (Except Failure (Value × Text)) :=
  let (negative, unsigned) := readSign s
  (readWhole unsigned).map fun (whole, left) =>
    let decimals := readDecimals left
    let left := (decimals.map (·.2)).getD left
    let power := readPower left
    let left := (power.map (·.2)).getD left
    match decimals, power with
    | none, none =>
      if Value.mostDigits < whole.length then .error (.longInteger whole.length)
      else
        let n : Int := digitsValue 10 whole
        .ok (.int (if negative then -n else n), left)
    | _, _ =>
      let digits := (decimals.map (·.1)).getD []
      let exponent := (power.map (·.1)).getD 0 - digits.length
      .ok (.real (Binary64.ofDecimal negative (digitsValue 10 (whole ++ digits)) exponent), left)

/-- The numbers and truth values that have a name. -/
def words : List (Text × Value) :=
  [("inf", .real (Binary64.infinity false)), ("nan", .real Binary64.nan),
    ("-inf", .real (Binary64.infinity true)), ("+inf", .real (Binary64.infinity false)),
    ("-nan", .real Binary64.nan), ("+nan", .real Binary64.nan),
    ("true", .bool true), ("false", .bool false)]

def readWord (s : Text) : Option (Value × Text) :=
  (words.find? fun w => Text.startsWith s w.1).map fun w => (w.2, s.drop w.1.length)

/-! ## Dates and times -/

/-- A number of exactly `count` digits between two bounds. -/
def readField (count low high : Nat) (s : Text) : Option (Nat × Text) :=
  let digits := s.take count
  let n := digitsValue 10 digits
  if digits.length = count && digits.all CodePoint.isAsciiDigit && low ≤ n && n ≤ high then
    some (n, s.drop count)
  else none

/-- One given character. -/
def readMark (mark : CodePoint) (s : Text) : Option Text :=
  match s with
  | [] => none
  | c :: rest => if c = mark then some rest else none

/-- Six digits of a second's fraction; further ones are left out. -/
def readMicros (s : Text) : Nat × Text :=
  match readMark '.' s with
  | none => (0, s)
  | some rest =>
    let (digits, left) := rest.span CodePoint.isAsciiDigit
    if digits.isEmpty then (0, s)
    else
      let kept := digits.take 6
      (digitsValue 10 kept * tenTo (6 - kept.length), left)

def readClock (s : Text) : Option (ClockTime × Text) := do
  let (hour, s) ← readField 2 0 23 s
  let (minute, s) ← readField 2 0 59 (← readMark ':' s)
  let (second, s) ← readField 2 0 59 (← readMark ':' s)
  let (micro, s) := readMicros s
  some ({ hour, minute, second, micro }, s)

def readDate (s : Text) : Option (Date × Text) := do
  let (year, s) ← readField 4 0 9999 s
  let (month, s) ← readField 2 1 12 (← readMark '-' s)
  let (day, s) ← readField 2 1 31 (← readMark '-' s)
  some ({ year, month, day }, s)

/-- An offset in minutes. -/
def readOffset (s : Text) : Option (Int × Text) :=
  match s with
  | [] => none
  | c :: rest =>
    if c = 'Z' || c = 'z' then some (0, rest)
    else if c = '+' || c = '-' then do
      let (hour, s) ← readField 2 0 23 rest
      let (minute, s) ← readField 2 0 59 (← readMark ':' s)
      let minutes : Int := (hour * 60 + minute : Nat)
      some (if c = '-' then -minutes else minutes, s)
    else none

/-- The time of day after a date, and its offset. -/
def readTimeAfterDate (s : Text) : Option (ClockTime × Option Int × Text) :=
  match s with
  | [] => none
  | c :: rest =>
    if c = 'T' || c = 't' || c = ' ' then do
      let (time, s) ← readClock rest
      match readOffset s with
      | some (minutes, s) => some (time, some minutes, s)
      | none => some (time, none, s)
    else none

/-- A date, a time of day, or both. -/
def readMoment (s : Text) : Option (Except Failure (Value × Text)) :=
  match readDate s with
  | some (date, left) =>
    if !date.isValid then some (.error .malformed)
    else
      match readTimeAfterDate left with
      | some (time, offset, left) => some (.ok (.moment (.dateTime date time offset), left))
      | none => some (.ok (.moment (.date date), left))
  | none => (readClock s).map fun (time, left) => .ok (.moment (.time time), left)

end Toml

end Acceptance
