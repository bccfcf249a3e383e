import Acceptance.Text.Basic

/-! # Spans of time

How a span of microseconds is shown in a message.
-/

namespace Acceptance

namespace Span

/-- The days, seconds and microseconds that are not zero; the last two are never negative. -/
def shown (micros : Int) : Text :=
  let seconds := micros.fdiv 1000000
  let parts : List (Text × Int) :=
    [("days", seconds.fdiv 86400), ("seconds", seconds.fmod 86400),
      ("microseconds", micros.fmod 1000000)]
  let some := (parts.filter fun p => p.2 ≠ 0).map fun p => p.1 ++ "=" ++ Text.ofInt p.2
  let inside : Text := if some.isEmpty then "0" else Text.joinWith ", " some
  "datetime.timedelta(" ++ inside ++ ")"

/-- A whole number of minutes as an offset, with a sign. -/
def offset (minutes : Int) : Text :=
  (if minutes < 0 then "-" else "+") ++ Text.padded 2 (minutes.natAbs / 60) ++ ":" ++
    Text.padded 2 (minutes.natAbs % 60)

end Span

end Acceptance
