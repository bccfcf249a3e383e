import Acceptance.Time.Calendar

/-! # Instants

A point in time, as the number of microseconds since the start of year 1 in UTC. Instants end with
year 9999.
-/

namespace Acceptance

/-- The microseconds of a day. -/
def microsInDay : Nat := 86400000000

structure Instant where
  micros : Nat
  isLt : micros < Date.count * microsInDay
  deriving DecidableEq

namespace Instant

/-- The instant that many microseconds after the start of year 1, if it is in range. -/
def ofMicros? (n : Int) : Option Instant :=
  if h : 0 ≤ n ∧ n.toNat < Date.count * microsInDay then some ⟨n.toNat, h.2⟩ else none

def date (i : Instant) : Date := Date.ofOrdinal (i.micros / microsInDay + 1)

def time (i : Instant) : ClockTime := ClockTime.ofMicros (i.micros % microsInDay)

/-- Date and time in UTC, with the offset written out. -/
def toText (i : Instant) : Text := i.date.toText ++ "T" ++ i.time.toText ++ "+00:00"

/-- A compact stamp for file names, to the second. The year has no leading zeros. -/
def stamp (i : Instant) : Text :=
  let d := i.date
  let t := i.time
  Text.ofNat d.year ++ Text.padded 2 d.month ++ Text.padded 2 d.day ++ "T" ++
    Text.padded 2 t.hour ++ Text.padded 2 t.minute ++ Text.padded 2 t.second ++ "Z"

end Instant

end Acceptance
