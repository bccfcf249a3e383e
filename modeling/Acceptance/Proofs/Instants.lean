import Acceptance.Proofs.JsonCanon
import Acceptance.Proofs.JsonReading
import Acceptance.Proofs.Timestamps

/-! # Instants as texts

A written timestamp is read as the instant that it denotes, whatever its zone; the text of an
instant is read as the instant again; and from year 1000 on the stamps for file names are in the
order of the seconds. -/

namespace Acceptance

namespace Text

variable {s t x y : Text} {width m n : Nat}

/-! ## Digits in the order of their values -/

theorem le_cons_iff {c d : CodePoint} :
    le (c :: s) (d :: t) = true ↔ c.val < d.val ∨ c.val = d.val ∧ le s t = true := by
  simp [le]

/-- What two texts start with alike decides nothing. -/
theorem le_append_left (u s t : Text) : le (u ++ s) (u ++ t) = le s t := by
  induction u with
  | nil => rfl
  | cons c u ih =>
    rw [List.cons_append, List.cons_append, Bool.eq_iff_iff, le_cons_iff, ih]
    simp

/-- Digits of one length compare as their values do; what follows them decides between equals. -/
theorem le_append_digits (hs : Json.AreDigits s) (ht : Json.AreDigits t)
    (hlength : s.length = t.length) :
    le (s ++ x) (t ++ y) = true ↔ Json.decimalValue s < Json.decimalValue t ∨
      Json.decimalValue s = Json.decimalValue t ∧ le x y = true := by
  induction s generalizing t with
  | nil =>
    obtain rfl := List.eq_nil_of_length_eq_zero hlength.symm
    simp
  | cons c s ih =>
    obtain ⟨d, t, rfl⟩ := List.exists_cons_of_length_eq_add_one hlength.symm
    obtain ⟨hc, hs⟩ := List.forall_mem_cons.mp hs
    obtain ⟨hd, ht⟩ := List.forall_mem_cons.mp ht
    have hlength : s.length = t.length := Nat.succ.inj hlength
    have hcval := Timestamp.val_of_isAsciiDigit hc
    have hdval := Timestamp.val_of_isAsciiDigit hd
    have hsvalue := Json.decimalValue_lt hs
    have htvalue := Json.decimalValue_lt ht
    have hcons := Json.decimalValue_append [c] s
    have hcons' := Json.decimalValue_append [d] t
    rw [List.singleton_append, Json.decimalValue_singleton] at hcons hcons'
    rw [List.cons_append, List.cons_append, le_cons_iff, ih hs ht hlength, hcons, hcons']
    rw [← hlength] at htvalue ⊢
    rcases Nat.lt_trichotomy c.val d.val with hlt | heq | hgt
    · have hplaces : (c.val - 0x30 + 1) * 10 ^ s.length ≤ (d.val - 0x30) * 10 ^ s.length :=
        Nat.mul_le_mul_right _ (by omega)
      rw [Nat.succ_mul] at hplaces
      exact iff_of_true (.inl hlt) (.inl (by omega))
    · simp [heq]
    · have hplaces : (d.val - 0x30 + 1) * 10 ^ s.length ≤ (c.val - 0x30) * 10 ^ s.length :=
        Nat.mul_le_mul_right _ (by omega)
      rw [Nat.succ_mul] at hplaces
      omega

theorem le_padded (hwidth : 0 < width) (hm : m < 10 ^ width) (hn : n < 10 ^ width) :
    le (padded width m ++ x) (padded width n ++ y) = true ↔ m < n ∨ m = n ∧ le x y = true := by
  obtain ⟨hdigits, -, hvalue⟩ := Json.padded_spec width m
  obtain ⟨hdigits', -, hvalue'⟩ := Json.padded_spec width n
  have hlength : (padded width m).length = (padded width n).length := by
    rw [length_padded hwidth hm, length_padded hwidth hn]
  rw [le_append_digits hdigits hdigits' hlength, hvalue, hvalue']

/-- A number of that many digits needs no zeros. -/
theorem ofNat_eq_padded (h : 10 ^ width ≤ n) : ofNat n = padded (width + 1) n := by
  have hlong : width < (ofNat n).length := by
    have hvalue := Json.decimalValue_lt (isAsciiDigit_of_mem_ofNat n)
    rw [Json.decimalValue_ofNat] at hvalue
    exact (Nat.pow_lt_pow_iff_right (by decide)).mp (h.trans_lt hvalue)
  have hnone : width + 1 - (ofNat n).length = 0 := Nat.sub_eq_zero_of_le hlong
  simp [padded, hnone]

end Text

theorem Date.eq_iff {d e : Date} :
    d = e ↔ d.year = e.year ∧ d.month = e.month ∧ d.day = e.day := by
  cases d
  cases e
  exact Date.mk.injEq .. ▸ Iff.rfl

namespace Instant

variable {i j : Instant}

/-! ## Stamps -/

/-- Stamps compare by the date, and on one date by the time to the second. -/
theorem le_stamp_iff (hi : 1000 ≤ i.date.year) (hj : 1000 ≤ j.date.year) :
    Text.le i.stamp j.stamp = true ↔ i.date.IsBefore j.date ∨
      i.date = j.date ∧ i.time.micros / 1000000 ≤ j.time.micros / 1000000 := by
  obtain ⟨hyear, hmonth, hday⟩ := Timestamp.fits_date i.isValid_date
  obtain ⟨hyear', hmonth', hday'⟩ := Timestamp.fits_date j.isValid_date
  obtain ⟨hhour, hminute, hsecond, -⟩ := Timestamp.fits_time i.isValid_time
  obtain ⟨hhour', hminute', hsecond', -⟩ := Timestamp.fits_time j.isValid_time
  have hclock := i.isValid_time
  have hclock' := j.isValid_time
  simp only [ClockTime.isValid, Bool.and_eq_true, decide_eq_true_eq] at hclock hclock'
  have htwo : 0 < 2 := by decide
  have hend : Text.le "Z" "Z" = true := by decide
  unfold stamp
  simp only [Text.ofNat_eq_padded (show 10 ^ 3 ≤ _ from hi),
    Text.ofNat_eq_padded (show 10 ^ 3 ≤ _ from hj), List.append_assoc]
  rw [Text.le_padded (by decide) hyear hyear', Text.le_padded htwo hmonth hmonth',
    Text.le_padded htwo hday hday', Text.le_append_left, Text.le_padded htwo hhour hhour',
    Text.le_padded htwo hminute hminute', Text.le_padded htwo hsecond hsecond']
  simp only [hend, and_true, Date.IsBefore, Date.eq_iff, ClockTime.micros]
  omega

/-- Date and time to the second are the seconds since the start of year 1. -/
theorem seconds_le_iff : i.micros / 1000000 ≤ j.micros / 1000000 ↔ i.date.IsBefore j.date ∨
    i.date = j.date ∧ i.time.micros / 1000000 ≤ j.time.micros / 1000000 := by
  have hsame : i.date = j.date ↔ i.date.ordinal = j.date.ordinal :=
    ⟨congrArg Date.ordinal, Date.ordinal_inj i.isDate_date j.isDate_date⟩
  rw [hsame, Date.isBefore_iff i.isDate_date j.isDate_date, ordinal_date, ordinal_date, micros_time,
    micros_time]
  unfold microsInDay
  omega

theorem le_stamp_iff_seconds (hi : 1000 ≤ i.date.year) (hj : 1000 ≤ j.date.year) :
    Text.le i.stamp j.stamp = true ↔ i.micros / 1000000 ≤ j.micros / 1000000 :=
  (le_stamp_iff hi hj).trans seconds_le_iff.symm

theorem stamp_inj_iff (hi : 1000 ≤ i.date.year) (hj : 1000 ≤ j.date.year) :
    i.stamp = j.stamp ↔ i.micros / 1000000 = j.micros / 1000000 := by
  rw [Nat.le_antisymm_iff, ← le_stamp_iff_seconds hi hj, ← le_stamp_iff_seconds hj hi]
  constructor
  · intro heq
    rw [heq, and_self]
    exact (Json.le_total _ _).elim id id
  · rintro ⟨hle, hge⟩
    exact Text.le_antisymm hle hge

end Instant

namespace Timestamp

variable {w v : Written} {i j : Instant}

/-! ## The text of an instant -/

/-- What the text of an instant says. -/
def Written.ofInstant (i : Instant) : Written :=
  { date := i.date
    time := i.time
    decimals := i.time.micro ≠ 0
    zone := .ahead 0 0 }

theorem isSound_ofInstant (i : Instant) : (Written.ofInstant i).IsSound where
  date := i.isValid_date
  time := i.isValid_time
  decimals := by simp [Written.ofInstant]
  zone := ⟨Nat.zero_le _, Nat.zero_le _⟩

theorem toText_ofInstant (i : Instant) : (Written.ofInstant i).toText = i.toText := by
  have htime : i.time.written (i.time.micro ≠ 0) = i.time.toText := by
    unfold ClockTime.written ClockTime.toText
    by_cases hmicro : i.time.micro = 0
    · simp [hmicro]
    · simp [hmicro]
  show i.date.toText ++ "T" ++ i.time.written (i.time.micro ≠ 0) ++ "+00:00" = _
  rw [htime]
  rfl

theorem denotes_ofInstant (i : Instant) : (Written.ofInstant i).Denotes i := by
  refine ⟨i.micros / microsInDay, i.date_eq_after.symm, ?_⟩
  show _ = _ * _ + (i.time.micros : Int) - Zone.minutes (.ahead 0 0) * 60000000
  rw [Instant.micros_time]
  unfold microsInDay
  simp only [Zone.minutes]
  omega

theorem read_instant (i : Instant) : read i.toText = .ok i := by
  rw [← toText_ofInstant]
  exact read_toText (isSound_ofInstant i) (denotes_ofInstant i)

/-- What is written says one instant. -/
theorem Written.Denotes.unique (hi : w.Denotes i) (hj : w.Denotes j) : i = j := by
  obtain ⟨days, hdate, hmicros⟩ := hi
  obtain ⟨days', hdate', hmicros'⟩ := hj
  have hdays : days = days' := by
    have hordinal := congrArg Date.ordinal (hdate.trans hdate'.symm)
    rw [Date.ordinal_after, Date.ordinal_after] at hordinal
    omega
  obtain ⟨micros, hlt⟩ := i
  obtain ⟨micros', hlt'⟩ := j
  rw [Instant.mk.injEq]
  dsimp only at hmicros hmicros'
  rw [← hdays] at hmicros'
  omega

/-! ## Reading, showing and stamping -/

/-- Reading gives the instant that is written, and its date and time in UTC are found by counting
days; its text is read as itself; two timestamps are read alike exactly if the second denotes the
instant of the first; stamps are in the order of the seconds, from the year with four digits on.
Date and time without a zone are refused, and the fault is that of a value that is not accepted. -/
theorem read_written (hw : w.IsSound) (hv : v.IsSound) (hi : w.Denotes i) (hj : v.Denotes j) :
    (read w.toText = .ok i ∧ i.date = Date.after (i.micros / microsInDay) ∧
      i.time.isValid = true ∧ i.time.micros = i.micros % microsInDay) ∧
    read i.toText = .ok i ∧
    (read w.toText = read v.toText ↔ v.Denotes i) ∧
    (1000 ≤ i.date.year → 1000 ≤ j.date.year →
      (Text.le i.stamp j.stamp = true ↔ i.micros / 1000000 ≤ j.micros / 1000000) ∧
      (i.stamp = j.stamp ↔ i.micros / 1000000 = j.micros / 1000000)) ∧
    read w.localText = .error .withoutOffset ∧
    Fault.ofTimestamp .withoutOffset = .invalid (.timestamp .withoutOffset) := by
  have hread := read_toText hw hi
  have hread' := read_toText hv hj
  have halike : read w.toText = read v.toText ↔ v.Denotes i := by
    rw [hread, hread', Except.ok.injEq]
    exact ⟨fun heq => heq ▸ hj, fun hi' => hi'.unique hj⟩
  exact ⟨⟨hread, i.date_eq_after, i.isValid_time, i.micros_time⟩, read_instant i, halike,
    fun hyear hyear' => ⟨Instant.le_stamp_iff_seconds hyear hyear',
      Instant.stamp_inj_iff hyear hyear'⟩,
    read_localText hw, rfl⟩

/-- The last hour of a leap day, and a time of the next day: the same instant. -/
theorem read_written_leap_day :
    let w : Written := ⟨⟨2024, 2, 29⟩, ⟨23, 30, 0, 0⟩, false, .behind 0 45⟩
    let v : Written := ⟨⟨2024, 3, 1⟩, ⟨23, 15, 0, 0⟩, true, .ahead 23 0⟩
    let i : Instant := ⟨63844848900000000, by decide⟩
    (w.IsSound ∧ v.IsSound ∧ w.Denotes i ∧ v.Denotes i) ∧
      (w.toText = "2024-02-29T23:30:00-00:45" ∧
        v.toText = "2024-03-01T23:15:00.000000+23:00") ∧
      read w.toText = .ok i ∧ read w.toText = read v.toText := by
  intro w v i
  have hw : w.IsSound := ⟨by decide, by decide, fun _ => rfl, by decide, by decide⟩
  have hv : v.IsSound := ⟨by decide, by decide, nofun, by decide, by decide⟩
  have hi : w.Denotes i :=
    ⟨w.date.ordinal - 1, Date.after_pred_ordinal (Date.isValid_iff.mp hw.date).1, by decide⟩
  have hj : v.Denotes i :=
    ⟨v.date.ordinal - 1, Date.after_pred_ordinal (Date.isValid_iff.mp hv.date).1, by decide⟩
  obtain ⟨⟨hread, -⟩, -, halike, -⟩ := read_written hw hv hi hj
  exact ⟨⟨hw, hv, hi, hj⟩, ⟨by decide, by decide⟩, hread, halike.mpr hj⟩

end Timestamp

end Acceptance
