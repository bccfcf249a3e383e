import Acceptance.Number.Power

/-! # Binary64 numbers

The sign, exponent and fraction of an IEEE 754 double, its exact value as a quotient of natural
numbers, and rounding of an exact quotient to the nearest double.
-/

namespace Acceptance

/-- How many fractions there are: two to the power 52. -/
abbrev fractions : Nat := 4503599627370496

/-- A double, by its three fields. -/
structure Binary64 where
  negative : Bool
  exponent : Fin 2048
  fraction : Fin fractions
  deriving DecidableEq

namespace Binary64

/-- Positive or negative zero. -/
def zero (negative : Bool) : Binary64 := ⟨negative, 0, 0⟩

/-- Positive or negative infinity. -/
def infinity (negative : Bool) : Binary64 := ⟨negative, 2047, 0⟩

/-- Not a number. -/
def nan : Binary64 := ⟨false, 2047, ⟨2251799813685248, by decide⟩⟩

def isNaN (x : Binary64) : Bool := x.exponent == 2047 && x.fraction != 0

def isInfinite (x : Binary64) : Bool := x.exponent == 2047 && x.fraction == 0

def isFinite (x : Binary64) : Bool := x.exponent != 2047

def isZero (x : Binary64) : Bool := x.exponent == 0 && x.fraction == 0

/-! ## Exact values -/

/-- The whole number `m` in the magnitude `m · 2 ^ (scale - 1074)` of a finite double. -/
def significand (x : Binary64) : Nat :=
  if x.exponent.val = 0 then x.fraction.val else twoTo 52 + x.fraction.val

/-- The exponent in the magnitude `significand · 2 ^ (scale - 1074)` of a finite double. -/
def scale (x : Binary64) : Nat := x.exponent.val - 1

/-- The magnitude of a finite double times `2 ^ 1074`, a whole number. -/
def units (x : Binary64) : Nat := x.significand * twoTo x.scale

/-- How many units make one. -/
def unitsInOne : Nat := twoTo 1074

/-- The value of a finite double in units. -/
def signedUnits (x : Binary64) : Int := if x.negative then -x.units else x.units

/-- The whole part of a finite double, cut towards zero. -/
def truncate (x : Binary64) : Int :=
  let whole : Int := (x.units / unitsInOne : Nat)
  if x.negative then -whole else whole

/-! ## Rounding -/

/-- The double of magnitude `m · 2 ^ (scale - 1074)`, where `m ≤ 2 ^ 53`, and `2 ^ 52 ≤ m` unless
`scale` is zero. -/
def ofScaled (negative : Bool) (m scale : Nat) : Binary64 :=
  if m < twoTo 52 then ⟨negative, 0, Fin.ofNat fractions m⟩
  else
    let carried := m = twoTo 53
    let exponent := if carried then scale + 2 else scale + 1
    if exponent < 2047 then
      ⟨negative, Fin.ofNat 2048 exponent,
        Fin.ofNat fractions (if carried then 0 else m - twoTo 52)⟩
    else infinity negative

/-- The quotient rounded to a whole number, a half going to the even neighbour. -/
def roundHalfEven (num den : Nat) : Nat :=
  let q := num / den
  let twice := 2 * (num % den)
  if twice < den then q
  else if den < twice then q + 1
  else q + q % 2

/-- The double nearest to `num / den`, a tie going to the even significand. -/
def ofRatio (negative : Bool) (num den : Nat) : Binary64 :=
  if num = 0 then zero negative
  else
    -- The quotient in units lies between `2 ^ (bits - 1)` and `2 ^ (bits + 1)`.
    let bits := (num * unitsInOne).log2 - den.log2
    let low := bits - 53
    let scale := if num * unitsInOne < den * twoTo (low + 53) then low else low + 1
    ofScaled negative (roundHalfEven (num * unitsInOne) (den * twoTo scale)) scale

/-- The double nearest to `digits · 10 ^ exponent`. -/
def ofDecimal (negative : Bool) (digits : Nat) (exponent : Int) : Binary64 :=
  if digits = 0 then zero negative
  else
    let size : Int := (Nat.toDigits 10 digits).length + exponent
    if 400 < size then infinity negative
    else if size < -400 then zero negative
    else if 0 ≤ exponent then ofRatio negative (digits * tenTo exponent.toNat) 1
    else ofRatio negative digits (tenTo (-exponent).toNat)

/-- The double nearest to `x · n` for a finite `x`. -/
def timesNat (x : Binary64) (n : Nat) : Binary64 := ofRatio x.negative (x.units * n) unitsInOne

/-- A finite double rounded to hundredths: the nearest hundredth, a half going to the even one,
and then the double nearest to that. -/
def toHundredths (x : Binary64) : Binary64 :=
  ofRatio x.negative (roundHalfEven (x.units * 100) unitsInOne) 100

end Binary64

end Acceptance
