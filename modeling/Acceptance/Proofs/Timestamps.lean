import Acceptance.Fault
import Acceptance.Proofs.Calendar
import Acceptance.Proofs.JsonNumber
import Acceptance.Proofs.Utf8

/-! # Reading timestamps

Date, time to the second or with six decimals, and zone: each number is read from the bytes that it
was written in, and the zone starts where the time of day ends. So such a timestamp is read as the
instant that it denotes, and without a zone it is refused. -/

namespace Acceptance

namespace Text

/-- A number that is not too large fills the width exactly. -/
theorem length_padded {width n : Nat} (hwidth : 0 < width) (h : n < 10 ^ width) :
    (padded width n).length = width := by
  have hdigits : (ofNat n).length ≤ width := by
    rwa [length_ofNat, Nat.length_toDigits_le_iff (by decide) hwidth]
  unfold padded
  rw [List.length_append, List.length_replicate]
  omega

end Text

namespace Timestamp

variable {s t : Text} {rest : List UInt8} {width n : Nat}

/-! ## Bytes -/

/-- The bytes of a text in ASCII. -/
def ascii (t : Text) : List UInt8 := t.map fun c => c.val.toUInt8

theorem ascii_append (s t : Text) : ascii (s ++ t) = ascii s ++ ascii t := List.map_append

theorem length_ascii (t : Text) : (ascii t).length = t.length := List.length_map ..

theorem bytesOf_eq_ascii (h : ∀ c ∈ t, c.val < 0x80) : bytesOf t = ascii t := by
  have hencodes : Text.Encodes t := by
    intro c hc
    have := h c hc
    simp only [CodePoint.isSurrogate, Bool.and_eq_false_iff, decide_eq_false_iff_not]
    omega
  have hbytes : ∀ c ∈ t, Utf8.bytesOf c = [c.val.toUInt8] := fun c hc => by
    unfold Utf8.bytesOf
    exact if_pos (h c hc)
  unfold bytesOf
  rw [Utf8.encode_of_encodes hencodes]
  show t.flatMap Utf8.bytesOf = _
  rw [List.flatMap_congr hbytes]
  exact List.map_eq_flatMap.symm

theorem val_of_isAsciiDigit {c : CodePoint} (h : c.isAsciiDigit = true) :
    0x30 ≤ c.val ∧ c.val ≤ 0x39 := by
  simpa [CodePoint.isAsciiDigit] using h

/-! ## Digits -/

theorem digitsFrom_ascii (h : Json.AreDigits s) (value : Nat) (rest : List UInt8) :
    digitsFrom value (ascii s ++ rest) s.length =
      some (value * 10 ^ s.length + Json.decimalValue s, rest) := by
  induction s generalizing value with
  | nil => simp [ascii, digitsFrom]
  | cons c s ih =>
    obtain ⟨hc, hs⟩ := List.forall_mem_cons.mp h
    obtain ⟨hlow, hhigh⟩ := val_of_isAsciiDigit hc
    have hbyte : c.val.toUInt8.toNat = c.val := Utf8.toNat_toUInt8 (by omega)
    have hdigit : isDigit c.val.toUInt8 = true := by
      simp only [isDigit, hbyte, Bool.and_eq_true, decide_eq_true_eq]
      omega
    have hvalue := Json.decimalValue_append [c] s
    rw [List.singleton_append, Json.decimalValue_singleton] at hvalue
    show digitsFrom value (c.val.toUInt8 :: (ascii s ++ rest)) (s.length + 1) = _
    rw [digitsFrom, if_pos hdigit, hbyte, ih hs, hvalue, List.length_cons, Nat.pow_succ]
    congr 2
    ring

theorem digits_padded (hwidth : 0 < width) (h : n < 10 ^ width) (rest : List UInt8) :
    digits width (ascii (Text.padded width n) ++ rest) = some (n, rest) := by
  obtain ⟨hdigits, -, hvalue⟩ := Json.padded_spec width n
  have hread := digitsFrom_ascii hdigits 0 rest
  rwa [Text.length_padded hwidth h, Nat.zero_mul, Nat.zero_add, hvalue] at hread

theorem isDigit_of_mem_ascii (h : Json.AreDigits s) {b : UInt8} (hb : b ∈ ascii s) :
    isDigit b = true := by
  obtain ⟨c, hc, rfl⟩ := List.mem_map.mp hb
  obtain ⟨hlow, hhigh⟩ := val_of_isAsciiDigit (h c hc)
  simp only [isDigit, Utf8.toNat_toUInt8 (show c.val < 256 by omega), Bool.and_eq_true,
    decide_eq_true_eq]
  omega

/-- A number in digits starts with a digit. -/
theorem exists_ascii_padded (width n : Nat) :
    ∃ b more, ascii (Text.padded width n) = b :: more ∧ isDigit b = true := by
  obtain ⟨hdigits, hne, -⟩ := Json.padded_spec width n
  obtain ⟨c, more, hcons⟩ := List.exists_cons_of_ne_nil hne
  refine ⟨c.val.toUInt8, ascii more, by rw [hcons]; rfl, ?_⟩
  exact isDigit_of_mem_ascii hdigits (by rw [hcons]; exact List.mem_cons_self)

theorem ne_of_isDigit {b c : UInt8} (hb : isDigit b = true) (hc : isDigit c = false) : b ≠ c := by
  rintro rfl
  rw [hb] at hc
  exact absurd hc (by decide)

/-! ## Dates -/

def dashed (d : Date) (rest : List UInt8) : List UInt8 :=
  ascii (Text.padded 4 d.year) ++ byteOf '-' :: (ascii (Text.padded 2 d.month) ++
    byteOf '-' :: (ascii (Text.padded 2 d.day) ++ rest))

theorem readDate_dashed {d : Date} (hyear : d.year < 10 ^ 4) (hmonth : d.month < 10 ^ 2)
    (hday : d.day < 10 ^ 2) (rest : List UInt8) : readDate (dashed d rest) 10 = some d := by
  obtain ⟨b, more, hb, hdigit⟩ := exists_ascii_padded 2 d.month
  have hnotWeek : b ≠ byteOf 'W' := ne_of_isDigit hdigit (by decide)
  have hmonthRead := digits_padded (by decide : 0 < 2) hmonth
    (byteOf '-' :: (ascii (Text.padded 2 d.day) ++ rest))
  rw [hb] at hmonthRead
  unfold readDate dashed
  simp only [digits_padded (by decide : 0 < 4) hyear, hb, Option.bind_eq_bind, Option.bind_some,
    peek, List.headD_cons, if_true, decide_true, List.drop_one, List.tail_cons, List.cons_append,
    if_neg hnotWeek]
  simp only [List.cons_append] at hmonthRead
  simp [hmonthRead, digits_padded (by decide : 0 < 2) hday]

theorem length_dashed {d : Date} (hyear : d.year < 10 ^ 4) (hmonth : d.month < 10 ^ 2)
    (hday : d.day < 10 ^ 2) (rest : List UInt8) : (dashed d rest).length = 10 + rest.length := by
  simp only [dashed, List.length_append, List.length_cons, length_ascii,
    Text.length_padded (by decide : 0 < 4) hyear, Text.length_padded (by decide : 0 < 2) hmonth,
    Text.length_padded (by decide : 0 < 2) hday]
  omega

theorem dateLength_dashed {d : Date} (hyear : d.year < 10 ^ 4) (hmonth : d.month < 10 ^ 2)
    (hday : d.day < 10 ^ 2) (rest : List UInt8) : dateLength (dashed d rest) = 10 := by
  have hfour : (ascii (Text.padded 4 d.year)).length = 4 := by
    rw [length_ascii, Text.length_padded (by decide) hyear]
  obtain ⟨b, more, hb, hdigit⟩ := exists_ascii_padded 2 d.month
  have hnotWeek : b ≠ byteOf 'W' := ne_of_isDigit hdigit (by decide)
  have hdash : byteAt (dashed d rest) 4 = byteOf '-' := by
    rw [byteAt, dashed, List.getD_eq_getElem?_getD, List.getElem?_append_right (by omega), hfour]
    rfl
  have hmonthByte : byteAt (dashed d rest) 5 = b := by
    rw [byteAt, dashed, List.getD_eq_getElem?_getD, List.getElem?_append_right (by omega), hfour, hb]
    rfl
  unfold dateLength
  rw [length_dashed hyear hmonth hday, hdash, hmonthByte]
  simp [hnotWeek]
  omega

/-! ## Times -/

/-- The bytes of a time of day to the second. -/
def clock (t : ClockTime) (rest : List UInt8) : List UInt8 :=
  ascii (Text.padded 2 t.hour) ++ byteOf ':' :: (ascii (Text.padded 2 t.minute) ++
    byteOf ':' :: (ascii (Text.padded 2 t.second) ++ rest))

theorem readClock_seconds {t : ClockTime} (hhour : t.hour < 10 ^ 2) (hminute : t.minute < 10 ^ 2)
    (hsecond : t.second < 10 ^ 2) (rest : List UInt8) :
    readClock (clock t rest) 8 = some ({ t with micro := 0 }, decide (peek rest ≠ 0)) := by
  unfold readClock clock
  simp [readFields, digits_padded (by decide : 0 < 2) hhour,
    digits_padded (by decide : 0 < 2) hminute, digits_padded (by decide : 0 < 2) hsecond, peek]

theorem readClock_decimals {t : ClockTime} (hhour : t.hour < 10 ^ 2) (hminute : t.minute < 10 ^ 2)
    (hsecond : t.second < 10 ^ 2) (hmicro : t.micro < 10 ^ 6) (rest : List UInt8) :
    readClock (clock t (byteOf '.' :: (ascii (Text.padded 6 t.micro) ++ rest))) 15 =
      some (t, decide (peek (rest.dropWhile isDigit) ≠ 0)) := by
  have hone : tenTo 0 = 1 := rfl
  unfold readClock clock
  simp [readFields, digits_padded (by decide : 0 < 2) hhour,
    digits_padded (by decide : 0 < 2) hminute, digits_padded (by decide : 0 < 2) hsecond, peek,
    readFraction, digits_padded (by decide : 0 < 6) hmicro, hone]

theorem readClock_minutes {hours minutes : Nat} (hhours : hours < 10 ^ 2)
    (hminutes : minutes < 10 ^ 2) :
    readClock (ascii (Text.padded 2 hours) ++ byteOf ':' :: ascii (Text.padded 2 minutes)) 5 =
      some ({ hour := hours, minute := minutes, second := 0, micro := 0 }, false) := by
  have hend := digits_padded (by decide : 0 < 2) hminutes []
  rw [List.append_nil] at hend
  unfold readClock
  simp [readFields, digits_padded (by decide : 0 < 2) hhours, hend, peek]

end Timestamp

/-! ## Timestamps as they are written -/

/-- Hour, minute and second, with six decimals or none. -/
def ClockTime.written (t : ClockTime) (decimals : Bool) : Text :=
  Text.padded 2 t.hour ++ ":" ++ Text.padded 2 t.minute ++ ":" ++ Text.padded 2 t.second ++
    if decimals then "." ++ Text.padded 6 t.micro else []

/-- How far a clock is from that of UTC. -/
inductive Zone where
  | zulu
  | ahead (hours minutes : Nat)
  | behind (hours minutes : Nat)

namespace Zone

def toText : Zone → Text
  | .zulu => "Z"
  | .ahead hours minutes => "+" ++ Text.padded 2 hours ++ ":" ++ Text.padded 2 minutes
  | .behind hours minutes => "-" ++ Text.padded 2 hours ++ ":" ++ Text.padded 2 minutes

/-- The minutes that the clock is ahead. -/
def minutes : Zone → Int
  | .zulu => 0
  | .ahead hours minutes => hours * 60 + minutes
  | .behind hours minutes => -(hours * 60 + minutes)

/-- The zone with `Z` written as an offset. -/
def numeric : Zone → Zone
  | .zulu => .ahead 0 0
  | zone => zone

def IsSound : Zone → Prop
  | .zulu => True
  | .ahead hours minutes => hours ≤ 23 ∧ minutes ≤ 59
  | .behind hours minutes => hours ≤ 23 ∧ minutes ≤ 59

end Zone

namespace Timestamp

/-- A timestamp by what is written in it. -/
structure Written where
  date : Date
  time : ClockTime
  decimals : Bool
  zone : Zone

namespace Written

/-- Date and time of a clock that is somewhere. -/
def localText (w : Written) : Text := w.date.toText ++ "T" ++ w.time.written w.decimals

def toText (w : Written) : Text := w.localText ++ w.zone.toText

/-- Date, time and zone exist, and nothing is left out. -/
structure IsSound (w : Written) : Prop where
  date : w.date.isValid = true
  time : w.time.isValid = true
  decimals : w.decimals = false → w.time.micro = 0
  zone : w.zone.IsSound

/-- At the instant, a clock of the zone shows date and time: the days are counted from the first
date on, and the clock is ahead of UTC by the minutes of its zone. -/
def Denotes (w : Written) (i : Instant) : Prop :=
  ∃ days, Date.after days = w.date ∧
    (i.micros : Int) = days * microsInDay + w.time.micros - w.zone.minutes * 60000000

end Written

variable {d : Date} {t : ClockTime} {decimals : Bool} {rest : List UInt8} {w v : Written}

theorem fits_date (h : d.isValid = true) :
    d.year < 10 ^ 4 ∧ d.month < 10 ^ 2 ∧ d.day < 10 ^ 2 := by
  obtain ⟨⟨-, hmonth, hmonth', -, hday⟩, hyear⟩ := Date.isValid_iff.mp h
  have hall : ∀ leap : Bool, ∀ k : Fin 12, (Date.monthLengths leap).getD k 0 ≤ 31 := by decide
  have hlength : Date.daysInMonth d.year d.month ≤ 31 :=
    hall (Date.isLeapYear d.year) ⟨d.month - 1, by omega⟩
  unfold Date.lastYear at hyear
  omega

theorem fits_time (h : t.isValid = true) :
    t.hour < 10 ^ 2 ∧ t.minute < 10 ^ 2 ∧ t.second < 10 ^ 2 ∧ t.micro < 10 ^ 6 := by
  simp only [ClockTime.isValid, Bool.and_eq_true, decide_eq_true_eq] at h
  omega

theorem ascii_written (t : ClockTime) (decimals : Bool) (rest : List UInt8) :
    ascii (t.written decimals) ++ rest = clock t
      (if decimals then byteOf '.' :: (ascii (Text.padded 6 t.micro) ++ rest) else rest) := by
  unfold ClockTime.written clock
  cases decimals <;> simp [ascii_append] <;> rfl

theorem ascii_dated (d : Date) (s : Text) :
    ascii (d.toText ++ "T" ++ s) = dashed d (byteOf 'T' :: ascii s) := by
  unfold Date.toText dashed
  simp [ascii_append]
  rfl

/-- A time is read up to something that is no digit. -/
theorem readClock_written (ht : t.isValid = true) (hdecimals : decimals = false → t.micro = 0)
    (hrest : ∀ b ∈ rest.head?, isDigit b = false) :
    readClock (ascii (t.written decimals) ++ rest) (ascii (t.written decimals)).length =
      some (t, decide (peek rest ≠ 0)) := by
  obtain ⟨hhour, hminute, hsecond, hmicro⟩ := fits_time ht
  have hlength : (ascii (t.written decimals)).length = if decimals then 15 else 8 := by
    simp only [ClockTime.written, length_ascii, List.length_append,
      Text.length_padded (by decide : 0 < 2) hhour, Text.length_padded (by decide : 0 < 2) hminute,
      Text.length_padded (by decide : 0 < 2) hsecond]
    cases decimals
    · rfl
    · simp only [if_true, List.length_append, Text.length_padded (by decide : 0 < 6) hmicro]
      rfl
  rw [ascii_written, hlength]
  cases decimals with
  | true =>
    have hdrop : rest.dropWhile isDigit = rest := by
      cases rest with
      | nil => rfl
      | cons b rest => exact List.dropWhile_cons_of_neg (by simp [hrest b rfl])
    exact (readClock_decimals hhour hminute hsecond hmicro rest).trans (by rw [hdrop])
  | false =>
    have hzero := hdecimals rfl
    refine (readClock_seconds hhour hminute hsecond rest).trans ?_
    obtain ⟨hour, minute, second, micro⟩ := t
    rw [show micro = 0 from hzero]

/-! ## Reading them -/

theorem startsOffset_of_isDigit {b : UInt8} (h : isDigit b = true) : startsOffset b = false := by
  simp only [startsOffset, Bool.or_eq_false_iff, decide_eq_false_iff_not]
  exact ⟨⟨ne_of_isDigit h (by decide), ne_of_isDigit h (by decide)⟩, ne_of_isDigit h (by decide)⟩

theorem forall_mem_padded {P : CodePoint → Prop} (hdigit : ∀ c, c.isAsciiDigit = true → P c)
    (width n : Nat) : ∀ c ∈ Text.padded width n, P c :=
  fun c hc => hdigit c ((Json.padded_spec width n).1 c hc)

theorem forall_mem_date {P : CodePoint → Prop} (hdigit : ∀ c, c.isAsciiDigit = true → P c)
    (hdash : P '-') (d : Date) : ∀ c ∈ d.toText, P c := by
  have hdash : ∀ c ∈ ("-" : Text), P c := List.forall_mem_singleton.mpr hdash
  simp only [Date.toText, List.forall_mem_append]
  have hnumber := forall_mem_padded hdigit
  exact ⟨⟨⟨⟨hnumber _ _, hdash⟩, hnumber _ _⟩, hdash⟩, hnumber _ _⟩

theorem forall_mem_written {P : CodePoint → Prop} (hdigit : ∀ c, c.isAsciiDigit = true → P c)
    (hcolon : P ':') (hpoint : P '.') (t : ClockTime) (decimals : Bool) :
    ∀ c ∈ t.written decimals, P c := by
  have hcolon : ∀ c ∈ (":" : Text), P c := List.forall_mem_singleton.mpr hcolon
  have hpoint : ∀ c ∈ ("." : Text), P c := List.forall_mem_singleton.mpr hpoint
  have hnumber := forall_mem_padded hdigit
  simp only [ClockTime.written, List.forall_mem_append]
  refine ⟨⟨⟨⟨⟨hnumber _ _, hcolon⟩, hnumber _ _⟩, hcolon⟩, hnumber _ _⟩, ?_⟩
  cases decimals with
  | false => exact List.forall_mem_nil _
  | true => exact List.forall_mem_append.mpr ⟨hpoint, hnumber _ _⟩

/-- Nothing in a time of day starts an offset. -/
theorem startsOffset_of_mem_written {b : UInt8} (hb : b ∈ ascii (t.written decimals)) :
    startsOffset b = false := by
  obtain ⟨c, hc, rfl⟩ := List.mem_map.mp hb
  refine forall_mem_written (P := fun c => startsOffset c.val.toUInt8 = false) (fun c hc => ?_)
    (by decide) (by decide) t decimals c hc
  have hdigits : Json.AreDigits [c] := List.forall_mem_singleton.mpr hc
  exact startsOffset_of_isDigit (isDigit_of_mem_ascii hdigits List.mem_cons_self)

theorem takeWhile_written (t : ClockTime) (decimals : Bool)
    (hrest : ∀ b ∈ rest.head?, startsOffset b = true) :
    ((ascii (t.written decimals) ++ rest).takeWhile fun b => !startsOffset b) =
      ascii (t.written decimals) := by
  have hmem : ∀ b ∈ ascii (t.written decimals), (!startsOffset b) = true := fun b hb => by
    rw [startsOffset_of_mem_written hb]
    rfl
  rw [List.takeWhile_append_of_pos hmem]
  cases rest with
  | nil => exact List.append_nil _
  | cons b rest =>
    rw [List.takeWhile_cons_of_neg (by simp [hrest b rfl]), List.append_nil]

theorem readTime_local (ht : t.isValid = true) (hdecimals : decimals = false → t.micro = 0) :
    readTime (ascii (t.written decimals)) = some (t, none) := by
  have hend : ∀ b ∈ ([] : List UInt8).head?, startsOffset b = true ∧ isDigit b = false := by simp
  have htake := takeWhile_written t decimals fun b hb => (hend b hb).1
  have hclock := readClock_written ht hdecimals fun b hb => (hend b hb).2
  rw [List.append_nil] at htake hclock
  unfold readTime
  simp only [htake, hclock, Option.bind_eq_bind, Option.bind_some, List.drop_length]
  rfl

/-- An offset is read from the bytes after its sign. -/
theorem readTime_offset (ht : t.isValid = true) (hdecimals : decimals = false → t.micro = 0)
    {mark : UInt8} (hmark : mark = byteOf '+' ∨ mark = byteOf '-') {hours minutes : Nat}
    (hhours : hours < 10 ^ 2) (hminutes : minutes < 10 ^ 2) :
    readTime (ascii (t.written decimals) ++ mark :: (ascii (Text.padded 2 hours) ++
      byteOf ':' :: ascii (Text.padded 2 minutes))) =
      some (t, some (offsetMicros (mark = byteOf '-')
        { hour := hours, minute := minutes, second := 0, micro := 0 })) := by
  have hmarks : startsOffset mark = true ∧ isDigit mark = false ∧ mark ≠ byteOf 'Z' := by
    rcases hmark with rfl | rfl <;> decide
  obtain ⟨hstarts, hnoDigit, hnotZulu⟩ := hmarks
  have hlength : (ascii (Text.padded 2 hours) ++ byteOf ':' ::
      ascii (Text.padded 2 minutes)).length = 5 := by
    simp [length_ascii, Text.length_padded (by decide : 0 < 2) hhours,
      Text.length_padded (by decide : 0 < 2) hminutes]
  have hoffset := readClock_minutes hhours hminutes
  generalize ascii (Text.padded 2 hours) ++ byteOf ':' :: ascii (Text.padded 2 minutes) = offset
    at hlength hoffset
  have htake := takeWhile_written t decimals (by simpa using hstarts :
    ∀ b ∈ (mark :: offset).head?, startsOffset b = true)
  have hclock := readClock_written ht hdecimals (by simpa using hnoDigit :
    ∀ b ∈ (mark :: offset).head?, isDigit b = false)
  unfold readTime
  simp only [htake, hclock, Option.bind_eq_bind, Option.bind_some, List.drop_left, if_neg hnotZulu,
    hlength, hoffset]
  rfl

/-! ## Zones -/

theorem offsetMicros_minutes (negative : Bool) (hours minutes : Nat) :
    offsetMicros negative { hour := hours, minute := minutes, second := 0, micro := 0 } =
      (if negative then -(hours * 60 + minutes) else hours * 60 + minutes : Int) * 60000000 := by
  unfold offsetMicros
  cases negative <;> simp <;> omega

theorem ascii_signed (sign : Char) (hours minutes : Nat) :
    ascii (sign :: (Text.padded 2 hours ++ ":" ++ Text.padded 2 minutes)) =
      (CodePoint.ofChar sign).val.toUInt8 ::
        (ascii (Text.padded 2 hours) ++ byteOf ':' :: ascii (Text.padded 2 minutes)) := by
  show _ :: ascii _ = _
  rw [ascii_append, ascii_append, List.append_assoc]
  rfl

/-- Hours and minutes after a sign are read as the offset. -/
theorem readTime_signed (ht : t.isValid = true) (hdecimals : decimals = false → t.micro = 0)
    {sign : Char} (hsign : sign = '+' ∨ sign = '-') {hours minutes : Nat} (hhours : hours ≤ 23)
    (hminutes : minutes ≤ 59) :
    readTime (ascii (t.written decimals ++
      (sign :: (Text.padded 2 hours ++ ":" ++ Text.padded 2 minutes) : Text))) =
      some (t, some ((if sign = '-' then -(hours * 60 + minutes) else hours * 60 + minutes : Int) *
        60000000)) := by
  have hmark : byteOf sign = byteOf '+' ∨ byteOf sign = byteOf '-' := by
    rcases hsign with rfl | rfl <;> decide
  have hsame : decide (byteOf sign = byteOf '-') = decide (sign = '-') := by
    rcases hsign with rfl | rfl <;> decide
  have hcode : (CodePoint.ofChar sign).val.toUInt8 = byteOf sign := rfl
  rw [ascii_append, ascii_signed, hcode]
  rw [readTime_offset ht hdecimals hmark (by omega) (by omega), hsame, offsetMicros_minutes]
  simp only [decide_eq_true_eq]

theorem readTime_zone (ht : t.isValid = true) (hdecimals : decimals = false → t.micro = 0)
    {zone : Zone} (hzone : zone.IsSound) :
    readTime (ascii (t.written decimals ++ zone.numeric.toText)) =
      some (t, some (zone.minutes * 60000000)) := by
  cases zone with
  | zulu => exact readTime_signed ht hdecimals (.inl rfl) (Nat.zero_le _) (Nat.zero_le _)
  | ahead hours minutes => exact readTime_signed ht hdecimals (.inl rfl) hzone.1 hzone.2
  | behind hours minutes => exact readTime_signed ht hdecimals (.inr rfl) hzone.1 hzone.2

/-! ## The whole text -/

theorem forall_mem_localText {P : CodePoint → Prop} (hdigit : ∀ c, c.isAsciiDigit = true → P c)
    (hdash : P '-') (hbetween : P 'T') (hcolon : P ':') (hpoint : P '.') (w : Written) :
    ∀ c ∈ w.localText, P c := by
  have hbetween : ∀ c ∈ ("T" : Text), P c := List.forall_mem_singleton.mpr hbetween
  simp only [Written.localText, List.forall_mem_append]
  exact ⟨⟨forall_mem_date hdigit hdash _, hbetween⟩,
    forall_mem_written hdigit hcolon hpoint _ _⟩

theorem forall_mem_numeric {P : CodePoint → Prop} (hdigit : ∀ c, c.isAsciiDigit = true → P c)
    (hplus : P '+') (hminus : P '-') (hcolon : P ':') (zone : Zone) :
    ∀ c ∈ zone.numeric.toText, P c := by
  have hcolon : ∀ c ∈ (":" : Text), P c := List.forall_mem_singleton.mpr hcolon
  have hplus : ∀ c ∈ ("+" : Text), P c := List.forall_mem_singleton.mpr hplus
  have hminus : ∀ c ∈ ("-" : Text), P c := List.forall_mem_singleton.mpr hminus
  have hnumber := forall_mem_padded hdigit
  cases zone
  all_goals simp only [Zone.numeric, Zone.toText, List.forall_mem_append]
  · exact ⟨⟨⟨hplus, hnumber _ _⟩, hcolon⟩, hnumber _ _⟩
  · exact ⟨⟨⟨hplus, hnumber _ _⟩, hcolon⟩, hnumber _ _⟩
  · exact ⟨⟨⟨hminus, hnumber _ _⟩, hcolon⟩, hnumber _ _⟩

theorem lt_of_isAsciiDigit {c : CodePoint} (h : c.isAsciiDigit = true) : c.val < 0x80 := by
  have := val_of_isAsciiDigit h
  omega

theorem bytesOf_localText (w : Written) : bytesOf w.localText = ascii w.localText :=
  bytesOf_eq_ascii (forall_mem_localText (P := fun c => c.val < 0x80)
    (fun _ => lt_of_isAsciiDigit) (by decide) (by decide) (by decide) (by decide) w)

theorem bytesOf_numeric (w : Written) :
    bytesOf (w.localText ++ w.zone.numeric.toText) = ascii (w.localText ++ w.zone.numeric.toText) :=
  bytesOf_eq_ascii (List.forall_mem_append.mpr
    ⟨forall_mem_localText (P := fun c => c.val < 0x80)
      (fun _ => lt_of_isAsciiDigit) (by decide) (by decide) (by decide) (by decide) w,
    forall_mem_numeric (P := fun c => c.val < 0x80)
      (fun _ => lt_of_isAsciiDigit) (by decide) (by decide) (by decide) w.zone⟩)

/-- After the date and one character comes the time. -/
theorem readBytes_dated (hd : d.isValid = true) {offset : Option Int}
    (h : readTime (ascii s) = some (t, offset)) :
    readBytes (ascii (d.toText ++ "T" ++ s)) = some (d, t, offset) := by
  obtain ⟨hyear, hmonth, hday⟩ := fits_date hd
  have hbetween : separatorLength (byteOf 'T') = 1 := by decide
  have hdrop : (dashed d (byteOf 'T' :: ascii s)).drop 10 = byteOf 'T' :: ascii s := by
    have hsplit : dashed d (byteOf 'T' :: ascii s) = dashed d [] ++ byteOf 'T' :: ascii s := by
      simp [dashed]
    rw [hsplit]
    exact List.drop_left' (length_dashed hyear hmonth hday [])
  have hlong : 10 < 10 + ((ascii s).length + 1) ∧ ¬ 10 + ((ascii s).length + 1) < 7 := by omega
  rw [ascii_dated]
  unfold readBytes
  simp only [dateLength_dashed hyear hmonth hday, length_dashed hyear hmonth hday,
    readDate_dashed hyear hmonth hday, hdrop, List.length_cons, if_pos hlong.1, if_neg hlong.2,
    Option.bind_eq_bind, Option.bind_some, peek, List.headD_cons, hbetween, List.drop_one,
    List.tail_cons, h]

theorem endsWith_digits {digits : Text} (h : Json.AreDigits digits) (hne : digits ≠ []) (s : Text) :
    Text.endsWith (s ++ digits) "Z" = false := by
  rw [Bool.eq_false_iff]
  intro hends
  obtain ⟨front, hfront⟩ := List.isSuffixOf_iff_suffix.mp hends
  have hlast : (s ++ digits).getLast? = some ('Z' : CodePoint) := by
    rw [← hfront]
    exact List.getLast?_concat ..
  rw [List.getLast?_append_of_ne_nil _ hne] at hlast
  have hdigit := h _ (List.mem_of_getLast? hlast)
  exact absurd hdigit (by decide)

theorem withoutZulu_digits {digits : Text} (h : Json.AreDigits digits) (hne : digits ≠ [])
    (s : Text) : withoutZulu (s ++ digits) = s ++ digits := by
  unfold withoutZulu
  rw [endsWith_digits h hne]
  rfl

theorem withoutZulu_padded (s : Text) (width n : Nat) :
    withoutZulu (s ++ Text.padded width n) = s ++ Text.padded width n :=
  have ⟨hdigits, hne, _⟩ := Json.padded_spec width n
  withoutZulu_digits hdigits hne s

theorem withoutZulu_localText (w : Written) : withoutZulu w.localText = w.localText := by
  unfold Written.localText ClockTime.written
  cases w.decimals
  · simp only [Bool.false_eq_true, if_false, List.append_nil, ← List.append_assoc]
    exact withoutZulu_padded _ 2 _
  · simp only [if_true, ← List.append_assoc]
    exact withoutZulu_padded _ 6 _

theorem withoutZulu_toText (w : Written) :
    withoutZulu w.toText = w.localText ++ w.zone.numeric.toText := by
  unfold Written.toText
  cases w.zone with
  | zulu =>
    have hends : Text.endsWith (w.localText ++ "Z") "Z" = true :=
      List.isSuffixOf_iff_suffix.mpr (List.suffix_append ..)
    have hdrop : Text.dropEnd (w.localText ++ "Z") 1 = w.localText := by
      unfold Text.dropEnd
      exact List.take_left' (by simp; rfl)
    show withoutZulu (w.localText ++ "Z") = _
    unfold withoutZulu
    rw [hends, hdrop]
    rfl
  | ahead hours minutes =>
    simp only [Zone.numeric, Zone.toText, ← List.append_assoc]
    exact withoutZulu_padded _ 2 _
  | behind hours minutes =>
    simp only [Zone.numeric, Zone.toText, ← List.append_assoc]
    exact withoutZulu_padded _ 2 _

/-! ## Checking them against the calendar -/

theorem problem?_eq_none (hd : d.isValid = true) (ht : t.isValid = true) :
    problem? d t = none := by
  obtain ⟨⟨hyear, hmonth, hmonth', hday, hday'⟩, hlast⟩ := Date.isValid_iff.mp hd
  simp only [ClockTime.isValid, Bool.and_eq_true, decide_eq_true_eq] at ht
  obtain ⟨⟨⟨hhour, hminute⟩, hsecond⟩, -⟩ := ht
  unfold problem?
  simp only [Nat.not_lt.mpr hyear, Nat.not_lt.mpr hlast, Nat.not_lt.mpr hmonth,
    Nat.not_lt.mpr hmonth', Nat.not_lt.mpr hday, Nat.not_lt.mpr hday', Nat.not_lt.mpr hhour,
    Nat.not_lt.mpr hminute, Nat.not_lt.mpr hsecond, decide_false, Bool.or_self, Bool.false_eq_true,
    if_false]

theorem ofMicros?_micros (i : Instant) : Instant.ofMicros? (i.micros : Int) = some i := by
  unfold Instant.ofMicros?
  exact dif_pos ⟨Int.natCast_nonneg _, i.isLt⟩

/-- Every zone is less than a day away. -/
theorem natAbs_minutes_lt {zone : Zone} (h : zone.IsSound) :
    (zone.minutes * 60000000).natAbs < microsInDay := by
  unfold microsInDay
  cases zone with
  | zulu => decide
  | ahead hours minutes =>
    obtain ⟨hhours, hminutes⟩ := h
    simp only [Zone.minutes]
    omega
  | behind hours minutes =>
    obtain ⟨hhours, hminutes⟩ := h
    simp only [Zone.minutes]
    omega

/-- A written timestamp is read as the instant that it denotes. -/
theorem read_toText (hw : w.IsSound) {i : Instant} (hi : w.Denotes i) :
    read w.toText = .ok i := by
  obtain ⟨days, hdate, hmicros⟩ := hi
  have hordinal : w.date.ordinal - 1 = days := by
    rw [← hdate, Date.ordinal_after, Nat.add_sub_cancel]
  have hbytes : readBytes (bytesOf (withoutZulu w.toText)) =
      some (w.date, w.time, some (w.zone.minutes * 60000000)) := by
    rw [withoutZulu_toText, bytesOf_numeric, Written.localText, List.append_assoc]
    exact readBytes_dated hw.date (readTime_zone hw.time hw.decimals hw.zone)
  have hinstant : (((w.date.ordinal - 1) * microsInDay + w.time.micros : Nat) : Int) -
      w.zone.minutes * 60000000 = i.micros := by
    rw [hordinal, hmicros]
    push_cast
    ring
  have hnear : (some (w.zone.minutes * 60000000)).filter
      (fun o => decide ((microsInDay : Int) ≤ o.natAbs)) = none := by
    have hlt := natAbs_minutes_lt hw.zone
    refine Option.filter_some_neg ?_
    rw [decide_eq_false_iff_not]
    omega
  unfold read
  simp only [hbytes, problem?_eq_none hw.date hw.time, hnear, hinstant, ofMicros?_micros]

/-- Without a zone the instant is not known. -/
theorem read_localText (hw : w.IsSound) : read w.localText = .error .withoutOffset := by
  have hbytes : readBytes (bytesOf (withoutZulu w.localText)) = some (w.date, w.time, none) := by
    rw [withoutZulu_localText, bytesOf_localText]
    exact readBytes_dated hw.date (readTime_local hw.time hw.decimals)
  unfold read
  simp only [hbytes, problem?_eq_none hw.date hw.time]
  rfl

end Timestamp

end Acceptance
