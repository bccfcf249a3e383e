import Acceptance.Step.Input
import Acceptance.Text.Digit
import Acceptance.Value.Display

/-! # How long a wait step waits

The first run of digits, of whatever script, gives the number; a unit of seconds after it makes it a
number of seconds, and otherwise it is a number of milliseconds.
-/

namespace Acceptance

namespace Step

/-- The wait of a step that says no time, unless another is set. -/
def standardWait : Int := 2000

/-- The words for seconds and milliseconds, the longer before the shorter. -/
def latinUnits : List Text := ["ms", "seconds", "second", "secs", "sec", "s"]

/-- A letter, in any case, that would make a unit the start of another word. -/
def continuesWord (c : CodePoint) : Bool :=
  c.isAsciiLetter || c.val = 0x130 || c.val = 0x131 || c.val = 0x17F || c.val = 0x212A

/-- Does the text begin with the word, in any case, and does the word end there? -/
def startsWithUnit (t word : Text) : Bool :=
  match afterAnyCase? word t with
  | none => false
  | some rest => !rest.head?.any continuesWord

/-- The unit in front, as it is written. -/
def unit? (t : Text) : Option Text :=
  if Text.startsWith t "毫秒" then some "毫秒"
  else if Text.startsWith t "秒" then some "秒"
  else (latinUnits.find? (startsWithUnit t)).map fun word => t.take word.length

/-- The units of seconds, in lower case. -/
def secondUnits : List Text := ["秒", "s", "sec", "secs", "second", "seconds"]

/-- The milliseconds that a step asks for; the error is the number of digits, when there are too
many to read. -/
def waitTime (step : Text) (fallback : Int) : Except Nat Int :=
  let rest := step.dropWhile (!·.isDigit)
  let digits := rest.takeWhile (·.isDigit)
  if digits.isEmpty then .ok fallback
  else if Value.mostDigits < digits.length then .error digits.length
  else
    let n : Int := Text.digitsValue digits
    let isSeconds := match unit? (afterBlanks (rest.drop digits.length)) with
      | some unit => secondUnits.contains (Text.lower unit)
      | none => false
    .ok (if isSeconds then n * 1000 else n)

end Step

end Acceptance
