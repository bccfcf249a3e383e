import Acceptance.Time.Calendar
import Acceptance.Time.Span

/-! # Moments

The dates and times that a settings file may hold, each as precise as it was written.
-/

namespace Acceptance

/-- A date, a time of day, or both; both together may have an offset in minutes. -/
inductive Moment where
  | date (d : Date)
  | time (t : ClockTime)
  | dateTime (d : Date) (t : ClockTime) (offset : Option Int)
  deriving DecidableEq

namespace Moment

/-- Date and time with `between` between them. -/
def written (between : Text) : Moment → Text
  | .date d => d.toText
  | .time t => t.toText
  | .dateTime d t offset =>
    let zone : Text := match offset with
      | none => []
      | some minutes => Span.offset minutes
    d.toText ++ between ++ t.toText ++ zone

/-- The standard form. -/
def iso (m : Moment) : Text := m.written "T"

/-- The form for readers. -/
def shown (m : Moment) : Text := m.written " "

/-- The numbers of a time of day, without a second or a microsecond that is zero at the end. -/
def clockNumbers (t : ClockTime) : List Nat :=
  if t.micro ≠ 0 then [t.hour, t.minute, t.second, t.micro]
  else if t.second ≠ 0 then [t.hour, t.minute, t.second]
  else [t.hour, t.minute]

/-- Numbers in a row. -/
def row (numbers : List Nat) : Text := Text.joinWith ", " (numbers.map Text.ofNat)

/-- The form inside a list or an object. -/
def quoted : Moment → Text
  | .date d => "datetime.date(" ++ row [d.year, d.month, d.day] ++ ")"
  | .time t => "datetime.time(" ++ row (clockNumbers t) ++ ")"
  | .dateTime d t offset =>
    let zone : Text := match offset with
      | none => []
      | some minutes =>
        if minutes = 0 then ", tzinfo=datetime.timezone.utc"
        else ", tzinfo=datetime.timezone(" ++ Span.shown (minutes * 60000000) ++ ")"
    "datetime.datetime(" ++ row ([d.year, d.month, d.day] ++ clockNumbers t) ++ zone ++ ")"

end Moment

end Acceptance
