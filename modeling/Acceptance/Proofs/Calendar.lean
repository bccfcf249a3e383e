import Mathlib.Algebra.GroupWithZero.Nat
import Mathlib.Order.Monotone.Basic
import Mathlib.Tactic.SplitIfs
import Acceptance.Time.Instant

/-! # Counting days

Day numbers count the dates one after the other: the date after a date has the next number. So they
compare as the dates do, and every number from 1 on is that of one date. -/

namespace Acceptance

namespace Date

variable {d e : Date} {year month days n : Nat}

/-! ## Dates -/

/-- A date of the calendar, in any year from 1 on. -/
structure IsDate (d : Date) : Prop where
  year : 1 ≤ d.year
  month : 1 ≤ d.month
  month_le : d.month ≤ 12
  day : 1 ≤ d.day
  day_le : d.day ≤ daysInMonth d.year d.month

theorem isValid_iff : d.isValid = true ↔ d.IsDate ∧ d.year ≤ lastYear := by
  unfold isValid
  simp only [Bool.and_eq_true, decide_eq_true_eq]
  constructor
  · rintro ⟨⟨⟨⟨⟨hyear, hlast⟩, hmonth⟩, hmonth'⟩, hday⟩, hday'⟩
    exact ⟨⟨hyear, hmonth, hmonth', hday, hday'⟩, hlast⟩
  · rintro ⟨⟨hyear, hmonth, hmonth', hday, hday'⟩, hlast⟩
    exact ⟨⟨⟨⟨⟨hyear, hlast⟩, hmonth⟩, hmonth'⟩, hday⟩, hday'⟩

/-- The date after a date. -/
def next (d : Date) : Date :=
  if d.day < daysInMonth d.year d.month then { d with day := d.day + 1 }
  else if d.month < 12 then { year := d.year, month := d.month + 1, day := 1 }
  else { year := d.year + 1, month := 1, day := 1 }

/-- The date that many days after the first. -/
def after : Nat → Date
  | 0 => { year := 1, month := 1, day := 1 }
  | days + 1 => (after days).next

/-- Earlier in the calendar: by the year, then by the month, then by the day. -/
def IsBefore (d e : Date) : Prop :=
  d.year < e.year ∨ d.year = e.year ∧ (d.month < e.month ∨ d.month = e.month ∧ d.day < e.day)

/-! ## Months and years -/

def yearLength (year : Nat) : Nat := if isLeapYear year then 366 else 365

theorem one_le_daysInMonth (hmonth : 1 ≤ month) (hmonth' : month ≤ 12) :
    1 ≤ daysInMonth year month := by
  have hall : ∀ leap : Bool, ∀ k : Fin 12, 1 ≤ (monthLengths leap).getD k 0 := by decide
  exact hall (isLeapYear year) ⟨month - 1, by omega⟩

theorem daysBeforeMonth_eq_sum (year month : Nat) :
    daysBeforeMonth year month = ((monthLengths (isLeapYear year)).take (month - 1)).sum :=
  List.sum_eq_foldl.symm

theorem daysBeforeMonth_one (year : Nat) : daysBeforeMonth year 1 = 0 := rfl

theorem daysBeforeMonth_succ (hmonth : 1 ≤ month) :
    daysBeforeMonth year (month + 1) = daysBeforeMonth year month + daysInMonth year month := by
  obtain ⟨k, rfl⟩ := Nat.exists_eq_add_of_le' hmonth
  rw [daysBeforeMonth_eq_sum, daysBeforeMonth_eq_sum, daysInMonth, Nat.add_sub_cancel,
    Nat.add_sub_cancel, List.take_add_one, List.sum_append, List.getD_eq_getElem?_getD]
  cases (monthLengths (isLeapYear year))[k]? <;> simp

theorem daysBeforeMonth_mono (year : Nat) : Monotone (daysBeforeMonth year) := by
  refine monotone_nat_of_le_succ fun month => ?_
  rcases Nat.eq_zero_or_pos month with rfl | hmonth
  · exact le_rfl
  · rw [daysBeforeMonth_succ hmonth]
    exact Nat.le_add_right _ _

theorem daysBeforeMonth_thirteen (year : Nat) : daysBeforeMonth year 13 = yearLength year := by
  unfold daysBeforeMonth yearLength
  cases isLeapYear year <;> rfl

theorem isLeapYear_iff :
    isLeapYear year = true ↔ year % 4 = 0 ∧ (year % 100 ≠ 0 ∨ year % 400 = 0) := by
  simp [isLeapYear]

/-- The days of so many eras, centuries, cycles of four years, and years. -/
theorem daysBeforeYear_of_parts {era century cycle single : Nat} (hcentury : century ≤ 3)
    (hcycle : cycle ≤ 24) (hsingle : single ≤ 3) :
    daysBeforeYear (era * 400 + century * 100 + cycle * 4 + single + 1) =
      era * 146097 + century * 36524 + cycle * 1461 + single * 365 := by
  have hfours : (era * 400 + century * 100 + cycle * 4 + single) / 4 =
      era * 100 + century * 25 + cycle := by omega
  have hhundreds : (era * 400 + century * 100 + cycle * 4 + single) / 100 =
      era * 4 + century := by omega
  have hfourHundreds : (era * 400 + century * 100 + cycle * 4 + single) / 400 = era := by omega
  rw [daysBeforeYear, Nat.add_sub_cancel, hfours, hhundreds, hfourHundreds]
  omega

theorem daysBeforeYear_succ (hyear : 1 ≤ year) :
    daysBeforeYear (year + 1) = daysBeforeYear year + yearLength year := by
  obtain ⟨past, rfl⟩ := Nat.exists_eq_add_of_le' hyear
  have hfours : (past + 1) / 4 = past / 4 + if (past + 1) % 4 = 0 then 1 else 0 := by
    split <;> omega
  have hhundreds : (past + 1) / 100 = past / 100 + if (past + 1) % 100 = 0 then 1 else 0 := by
    split <;> omega
  have hfourHundreds : (past + 1) / 400 = past / 400 + if (past + 1) % 400 = 0 then 1 else 0 := by
    split <;> omega
  have hfewer : past / 100 ≤ past / 4 := Nat.div_le_div_left (by decide) (by decide)
  simp only [daysBeforeYear, yearLength, isLeapYear_iff, Nat.add_sub_cancel, hfours, hhundreds,
    hfourHundreds]
  generalize past / 4 = fours at hfewer
  generalize past / 100 = hundreds at hfewer
  generalize past / 400 = fourHundreds
  split_ifs <;> omega

theorem daysBeforeYear_mono : Monotone daysBeforeYear := by
  refine monotone_nat_of_le_succ fun year => ?_
  rcases Nat.eq_zero_or_pos year with rfl | hyear
  · exact le_rfl
  · rw [daysBeforeYear_succ hyear]
    exact Nat.le_add_right _ _

/-! ## Day numbers -/

theorem ordinal_le (h : d.IsDate) : d.ordinal ≤ daysBeforeYear (d.year + 1) := by
  have hmonth : daysBeforeMonth d.year (d.month + 1) ≤ daysBeforeMonth d.year 13 :=
    daysBeforeMonth_mono d.year (Nat.succ_le_succ h.month_le)
  rw [daysBeforeMonth_succ h.month, daysBeforeMonth_thirteen] at hmonth
  rw [daysBeforeYear_succ h.year, ordinal]
  have := h.day_le
  omega

/-- An earlier date has a smaller number. -/
theorem ordinal_lt_of_isBefore (hd : d.IsDate) (he : e.IsDate) (h : d.IsBefore e) :
    d.ordinal < e.ordinal := by
  have hday := he.day
  rcases h with hyear | ⟨hyear, hmonth | ⟨hmonth, hday'⟩⟩
  · have hle := ordinal_le hd
    have hyears : daysBeforeYear (d.year + 1) ≤ daysBeforeYear e.year := daysBeforeYear_mono hyear
    unfold ordinal at hle ⊢
    omega
  · have hmonths : daysBeforeMonth d.year (d.month + 1) ≤ daysBeforeMonth d.year e.month :=
      daysBeforeMonth_mono d.year hmonth
    rw [daysBeforeMonth_succ hd.month] at hmonths
    have hlength := hd.day_le
    unfold ordinal
    rw [← hyear]
    omega
  · unfold ordinal
    rw [← hyear, ← hmonth]
    omega

theorem isBefore_trichotomy (d e : Date) : d.IsBefore e ∨ d = e ∨ e.IsBefore d := by
  obtain ⟨year, month, day⟩ := d
  obtain ⟨year', month', day'⟩ := e
  simp only [IsBefore, Date.mk.injEq]
  omega

/-- The dates are in the order of their numbers. -/
theorem isBefore_iff (hd : d.IsDate) (he : e.IsDate) : d.IsBefore e ↔ d.ordinal < e.ordinal := by
  refine ⟨ordinal_lt_of_isBefore hd he, fun hlt => ?_⟩
  rcases isBefore_trichotomy d e with hbefore | rfl | hbefore
  · exact hbefore
  · exact absurd hlt (Nat.lt_irrefl _)
  · exact absurd hlt (ordinal_lt_of_isBefore he hd hbefore).asymm

theorem ordinal_inj (hd : d.IsDate) (he : e.IsDate) (h : d.ordinal = e.ordinal) : d = e := by
  rcases isBefore_trichotomy d e with hbefore | heq | hbefore
  · exact absurd h (ordinal_lt_of_isBefore hd he hbefore).ne
  · exact heq
  · exact absurd h (ordinal_lt_of_isBefore he hd hbefore).ne'

/-! ## The next date -/

theorem isDate_next (h : d.IsDate) : d.next.IsDate := by
  obtain ⟨hyear, hmonth, hmonth', hday, hday'⟩ := h
  unfold next
  split
  next hinside => exact ⟨hyear, hmonth, hmonth', Nat.le_add_left 1 _, hinside⟩
  split
  next hmore =>
    exact ⟨hyear, Nat.le_add_left 1 _, hmore, le_rfl,
      one_le_daysInMonth (Nat.le_add_left 1 _) hmore⟩
  next =>
    have htwelve : 1 ≤ 12 := by decide
    exact ⟨Nat.le_add_left 1 _, le_rfl, htwelve, le_rfl, one_le_daysInMonth le_rfl htwelve⟩

theorem ordinal_next (h : d.IsDate) : d.next.ordinal = d.ordinal + 1 := by
  obtain ⟨hyear, hmonth, hmonth', -, hday'⟩ := h
  unfold next
  split
  next => rfl
  next hlast =>
  have hday : d.day = daysInMonth d.year d.month := by omega
  split
  next =>
    simp only [ordinal, daysBeforeMonth_succ hmonth]
    omega
  next hend =>
    have hmonth : d.month = 12 := by omega
    have hdecember := daysBeforeMonth_thirteen d.year
    rw [daysBeforeMonth_succ (by decide : 1 ≤ 12)] at hdecember
    simp only [ordinal, daysBeforeYear_succ hyear, daysBeforeMonth_one, hday, hmonth]
    omega

theorem isDate_after (days : Nat) : (after days).IsDate := by
  induction days with
  | zero => exact ⟨le_rfl, le_rfl, by decide, le_rfl, by decide⟩
  | succ days ih => exact isDate_next ih

theorem ordinal_after (days : Nat) : (after days).ordinal = days + 1 := by
  induction days with
  | zero => rfl
  | succ days ih => rw [after, ordinal_next (isDate_after days), ih]

/-! ## The date of a number -/

/-- What is left of the days lies in one of the months. -/
theorem monthAndDay_spec {lengths : List Nat} (h : days < lengths.sum) (month : Nat) :
    ∃ k day, monthAndDay month days lengths = (month + k, day) ∧ 1 ≤ day ∧
      day ≤ lengths.getD k 0 ∧ (lengths.take k).sum + day = days + 1 := by
  induction lengths generalizing month days with
  | nil => exact absurd h (by simp)
  | cons length lengths ih =>
    rw [monthAndDay]
    split
    next hinside => exact ⟨0, days + 1, rfl, by omega, hinside, by simp⟩
    next hbeyond =>
      rw [List.sum_cons] at h
      have hdays : days - length < lengths.sum := by omega
      obtain ⟨k, day, hfound, hday, hday', hsum⟩ := ih hdays (month + 1)
      refine ⟨k + 1, day, ?_, hday, hday', ?_⟩
      · rw [hfound, Nat.add_assoc, Nat.add_comm 1 k]
      · rw [List.take_succ_cons, List.sum_cons]
        omega

/-- The year of a day number, and the days that are left of the number in it. -/
theorem ofOrdinal_eq (hn : 1 ≤ n) : ∃ year days, 1 ≤ year ∧ days < yearLength year ∧
    daysBeforeYear year + days + 1 = n ∧ ofOrdinal n =
      { year
        month := (monthAndDay 1 days (monthLengths (isLeapYear year))).1
        day := (monthAndDay 1 days (monthLengths (isLeapYear year))).2 } := by
  -- The years before are whole eras, centuries, cycles and single years.
  let era := (n - 1) % 146097
  let century := min (era / 36524) 3
  let inCentury := era - century * 36524
  let inCycle := inCentury % 1461
  let single := min (inCycle / 365) 3
  let year := (n - 1) / 146097 * 400 + century * 100 + inCentury / 1461 * 4 + single + 1
  refine ⟨year, inCycle - single * 365, Nat.le_add_left 1 _, ?_, ?_, rfl⟩
  · unfold yearLength
    split
    next => omega
    next hcommon =>
      rw [isLeapYear_iff] at hcommon
      omega
  · have hbefore : daysBeforeYear year = (n - 1) / 146097 * 146097 + century * 36524 +
        inCentury / 1461 * 1461 + single * 365 :=
      daysBeforeYear_of_parts (by omega) (by omega) (by omega)
    omega

theorem ofOrdinal_spec (hn : 1 ≤ n) : (ofOrdinal n).IsDate ∧ (ofOrdinal n).ordinal = n := by
  obtain ⟨year, days, hyear, hdays, hcount, heq⟩ := ofOrdinal_eq hn
  have hsum : (monthLengths (isLeapYear year)).sum = yearLength year := by
    unfold yearLength
    cases isLeapYear year <;> rfl
  obtain ⟨k, day, hfound, hday, hday', hbefore⟩ :=
    monthAndDay_spec (hsum ▸ hdays : days < (monthLengths (isLeapYear year)).sum) 1
  have hk : k < 12 := by
    by_contra hlarge
    have hnone : (monthLengths (isLeapYear year)).getD k 0 = 0 := by
      rw [List.getD_eq_getElem?_getD, List.getElem?_eq_none (by simpa [monthLengths] using hlarge)]
      rfl
    omega
  rw [heq, hfound]
  refine ⟨⟨hyear, Nat.le_add_right 1 k, by dsimp only; omega, hday, ?_⟩, ?_⟩
  · rw [daysInMonth, Nat.add_sub_cancel_left]
    exact hday'
  · rw [ordinal, daysBeforeMonth_eq_sum, Nat.add_sub_cancel_left]
    dsimp only
    omega

/-- Counting on from the first date and computing the date of a number come to the same. -/
theorem ofOrdinal_succ (days : Nat) : ofOrdinal (days + 1) = after days := by
  obtain ⟨hdate, hordinal⟩ := ofOrdinal_spec (Nat.le_add_left 1 days)
  exact ordinal_inj hdate (isDate_after days) (hordinal.trans (ordinal_after days).symm)

theorem after_pred_ordinal (h : d.IsDate) : after (d.ordinal - 1) = d := by
  have hday := h.day
  have hpos : d.ordinal - 1 + 1 = d.ordinal := by
    unfold ordinal
    omega
  exact ordinal_inj (isDate_after _) h ((ordinal_after _).trans hpos)

theorem year_le_of_ordinal_le (h : d.IsDate) (hcount : d.ordinal ≤ count) : d.year ≤ lastYear := by
  by_contra hlater
  have hyears : daysBeforeYear (lastYear + 1) ≤ daysBeforeYear d.year :=
    daysBeforeYear_mono (by omega)
  have hday := h.day
  unfold ordinal count at hcount
  omega

end Date

namespace ClockTime

variable {n : Nat}

theorem micros_ofMicros (n : Nat) : (ofMicros n).micros = n := by
  unfold ofMicros micros
  dsimp only
  omega

theorem isValid_ofMicros (h : n < microsInDay) : (ofMicros n).isValid = true := by
  unfold microsInDay at h
  unfold ofMicros isValid
  simp only [Bool.and_eq_true, decide_eq_true_eq]
  omega

end ClockTime

namespace Instant

variable {i j : Instant}

/-- The date of an instant in UTC is found by counting its whole days. -/
theorem date_eq_after (i : Instant) : i.date = Date.after (i.micros / microsInDay) :=
  Date.ofOrdinal_succ _

theorem isDate_date (i : Instant) : i.date.IsDate := by
  rw [date_eq_after]
  exact Date.isDate_after _

theorem ordinal_date (i : Instant) : i.date.ordinal = i.micros / microsInDay + 1 := by
  rw [date_eq_after, Date.ordinal_after]

theorem isValid_date (i : Instant) : i.date.isValid = true := by
  refine Date.isValid_iff.mpr ⟨isDate_date i, Date.year_le_of_ordinal_le (isDate_date i) ?_⟩
  rw [ordinal_date]
  exact Nat.div_lt_of_lt_mul (Nat.mul_comm _ _ ▸ i.isLt)

theorem micros_time (i : Instant) : i.time.micros = i.micros % microsInDay :=
  ClockTime.micros_ofMicros _

theorem isValid_time (i : Instant) : i.time.isValid = true :=
  ClockTime.isValid_ofMicros (Nat.mod_lt _ (by decide))

end Instant

end Acceptance
