import Acceptance.Number.Power
import Acceptance.Text.Quoted
import Acceptance.Text.Utf8
import Acceptance.Time.Instant
import Acceptance.Time.Span

/-! # Timestamps

Reading of ISO 8601 timestamps into instants. A date may be written by month or by week, with or
without dashes; any one character separates it from the time; the time may stop after the hour or
the minute. An offset is asked for.

The reader looks at the bytes of the text, and sees a zero byte after the last of them.
-/

namespace Acceptance

namespace Timestamp

/-- Why a text is no timestamp. -/
inductive Problem where
  | malformed (text : Text)
  | offsetOutOfRange (micros : Int)
  | yearOutOfRange (year : Nat)
  | monthOutOfRange
  | dayOutOfRange
  | hourOutOfRange
  | minuteOutOfRange
  | secondOutOfRange
  | withoutOffset
  /-- The date in UTC lies outside of the calendar. -/
  | instantOutOfRange
  deriving DecidableEq

/-! ## Bytes -/

/-- The first byte, or zero at the end. -/
def peek (bytes : List UInt8) : UInt8 := bytes.headD 0

/-- The byte at a position, or zero past the end. -/
def byteAt (bytes : List UInt8) (position : Nat) : UInt8 := bytes.getD position 0

def byteOf (c : Char) : UInt8 := c.toNat.toUInt8

def isDigit (b : UInt8) : Bool := 0x30 ≤ b.toNat && b.toNat ≤ 0x39

/-- The number in the next `count` bytes, all of them digits, and the bytes after them. -/
def digitsFrom (value : Nat) (bytes : List UInt8) : Nat → Option (Nat × List UInt8)
  | 0 => some (value, bytes)
  | count + 1 =>
    match bytes with
    | [] => none
    | b :: rest => if isDigit b then digitsFrom (value * 10 + (b.toNat - 0x30)) rest count else none

def digits (count : Nat) (bytes : List UInt8) : Option (Nat × List UInt8) :=
  digitsFrom 0 bytes count

/-! ## The date -/

/-- How many bytes the date takes. A run of digits after a week decides whether the first of them is
the day. -/
def dateLength (bytes : List UInt8) : Nat :=
  let length := bytes.length
  if length = 7 then 7
  else if byteAt bytes 4 = byteOf '-' then
    if byteAt bytes 5 = byteOf 'W' then
      if 8 < length && byteAt bytes 8 = byteOf '-' then
        if length = 9 then length + 1
        else if 10 < length && isDigit (byteAt bytes 10) then 8
        else 10
      else 8
    else 10
  else if byteAt bytes 4 = byteOf 'W' then
    let stop := 7 + ((bytes.drop 7).takeWhile isDigit).length
    if stop < 9 then stop
    else if stop % 2 = 0 then 7
    else 8
  else 8

/-- The date in the first `length` bytes. -/
def readDate (bytes : List UInt8) (length : Nat) : Option Date := do
  let (year, rest) ← digits 4 bytes
  let dashed := peek rest = byteOf '-'
  let rest := if dashed then rest.drop 1 else rest
  if peek rest = byteOf 'W' then
    let (week, rest) ← digits 2 (rest.drop 1)
    let taken := bytes.length - rest.length
    let day ←
      if taken < length then
        if dashed && peek rest ≠ byteOf '-' then none
        else (digits 1 (if dashed then rest.drop 1 else rest)).map (·.1)
      else some 1
    let ordinal ← Date.ordinalOfWeek? year week day
    -- The weeks of year 0 lie before the first month.
    some (if year = 0 then { year := 1, month := 0, day := 1 } else Date.ofOrdinal ordinal.toNat)
  else
    let (month, rest) ← digits 2 rest
    if dashed && peek rest ≠ byteOf '-' then none
    else
      let (day, _) ← digits 2 (if dashed then rest.drop 1 else rest)
      some { year, month, day }

/-! ## The time -/

/-- The digits after the seconds; the first six of the `left` bytes count. Says too whether another
byte follows the digits. -/
def readFraction (bytes : List UInt8) (left : Nat) : Option (Nat × Bool) := do
  let count := min left 6
  let (value, rest) ← digits count bytes
  some (value * tenTo (6 - count), peek (rest.dropWhile isDigit) ≠ 0)

/-- Hour, minute and second, as far as they go, from the first `left` bytes: the fields read so far,
and whether they are separated by colons. The flag of the answer says that bytes follow. -/
def readFields (fields : List Nat) (separated : Bool) (bytes : List UInt8) (left : Nat) :
    Nat → Option (List Nat × Nat × Bool)
  | 0 => (readFraction bytes left).map fun (micro, more) => (fields.reverse, micro, more)
  | count + 1 => do
    let (value, rest) ← digits 2 bytes
    let fields := value :: fields
    let next := peek rest
    let separated := if fields.length = 1 then next = byteOf ':' else separated
    if left ≤ 3 then some (fields.reverse, 0, next ≠ 0)
    else if separated && next = byteOf ':' then
      readFields fields separated (rest.drop 1) (left - 3) count
    else if next = byteOf '.' || next = byteOf ',' then
      (readFraction (rest.drop 1) (left - 3)).map fun (micro, more) => (fields.reverse, micro, more)
    else if separated then none
    else readFields fields separated rest (left - 2) count

/-- The time of day in the first `left` bytes, and whether bytes follow it. -/
def readClock (bytes : List UInt8) (left : Nat) : Option (ClockTime × Bool) := do
  let (fields, micro, more) ← readFields [] true bytes left 3
  some ({ hour := fields.getD 0 0, minute := fields.getD 1 0, second := fields.getD 2 0, micro },
    more)

def startsOffset (b : UInt8) : Bool := b = byteOf '+' || b = byteOf '-' || b = byteOf 'Z'

/-- The microseconds of an offset; its fraction is dropped when the rest of it is zero. -/
def offsetMicros (negative : Bool) (t : ClockTime) : Int :=
  let seconds := (t.hour * 60 + t.minute) * 60 + t.second
  if seconds = 0 then 0
  else
    let micros : Int := (seconds * 1000000 + t.micro : Nat)
    if negative then -micros else micros

/-- Time of day and offset. -/
def readTime (bytes : List UInt8) : Option (ClockTime × Option Int) := do
  let clock := bytes.takeWhile fun b => !startsOffset b
  let (time, more) ← readClock bytes clock.length
  match bytes.drop clock.length with
  | [] => if more then none else some (time, none)
  | mark :: rest =>
    if mark = byteOf 'Z' then if peek rest = 0 then some (time, some 0) else none
    else
      let (offset, more) ← readClock rest rest.length
      if more then none else some (time, some (offsetMicros (mark = byteOf '-') offset))

/-! ## The whole -/

/-- How many bytes a separator takes, by its first. -/
def separatorLength (lead : UInt8) : Nat :=
  if lead.toNat < 0x80 then 1
  else if lead.toNat / 0x10 = 0xE then 3
  else if lead.toNat / 0x10 = 0xF then 4
  else 2

/-- Date, time and offset, not yet checked against the calendar. -/
def readBytes (bytes : List UInt8) : Option (Date × ClockTime × Option Int) := do
  let length := dateLength bytes
  if bytes.length < 7 then none
  else
    let date ← readDate bytes length
    if length < bytes.length then
      let rest := bytes.drop length
      let (time, offset) ← readTime (rest.drop (separatorLength (peek rest)))
      some (date, time, offset)
    else some (date, { hour := 0, minute := 0, second := 0, micro := 0 }, none)

/-- The first field that is out of range, in the order of writing. -/
def problem? (d : Date) (t : ClockTime) : Option Problem :=
  if d.year < 1 || Date.lastYear < d.year then some (.yearOutOfRange d.year)
  else if d.month < 1 || 12 < d.month then some .monthOutOfRange
  else if d.day < 1 || Date.daysInMonth d.year d.month < d.day then some .dayOutOfRange
  else if 23 < t.hour then some .hourOutOfRange
  else if 59 < t.minute then some .minuteOutOfRange
  else if 59 < t.second then some .secondOutOfRange
  else none

/-- A trailing `Z` written as an offset. -/
def withoutZulu (t : Text) : Text := if Text.endsWith t "Z" then Text.dropEnd t 1 ++ "+00:00" else t

/-- The bytes of a text, none if it has lone surrogates. -/
def bytesOf (t : Text) : List UInt8 :=
  match Utf8.encode t with
  | .ok bytes => bytes
  | .error _ => []

/-- The instant that a timestamp names. -/
def read (written : Text) : Except Problem Instant :=
  let text := withoutZulu written
  match readBytes (bytesOf text) with
  | none => .error (.malformed text)
  | some (date, time, offset) =>
    let offset? := offset.filter fun o => (microsInDay : Int) ≤ o.natAbs
    match offset?, problem? date time, offset with
    | some o, _, _ => .error (.offsetOutOfRange o)
    | none, some problem, _ => .error problem
    | none, none, none => .error .withoutOffset
    | none, none, some offset =>
      let shown : Int := ((date.ordinal - 1) * microsInDay + time.micros : Nat)
      match Instant.ofMicros? (shown - offset) with
      | some instant => .ok instant
      | none => .error .instantOutOfRange

/-! ## Messages -/

def Problem.message : Problem → Text
  | .malformed text => "Invalid isoformat string: " ++ Text.quoted text
  | .offsetOutOfRange micros =>
    "offset must be a timedelta strictly between -timedelta(hours=24) and timedelta(hours=24), not "
      ++ Span.shown micros ++ "."
  | .yearOutOfRange year => "year " ++ Text.ofNat year ++ " is out of range"
  | .monthOutOfRange => "month must be in 1..12"
  | .dayOutOfRange => "day is out of range for month"
  | .hourOutOfRange => "hour must be in 0..23"
  | .minuteOutOfRange => "minute must be in 0..59"
  | .secondOutOfRange => "second must be in 0..59"
  | .withoutOffset => "Timestamp must be timezone-aware (include +00:00 or Z)"
  | .instantOutOfRange => "date value out of range"

end Timestamp

end Acceptance
