import Acceptance.Number.Binary64
import Acceptance.Text.Basic

/-! # The shortest text of a double

The fewest significant digits, at most seventeen, that read back as the same double, and of those
the nearest. Magnitudes from `1e-4` up to `1e16` are written without an exponent.
-/

namespace Acceptance

namespace Binary64

/-- A decimal magnitude `0.d₁d₂… · 10 ^ point`, the digits as one number. -/
structure Decimal where
  digits : Nat
  point : Int
  deriving DecidableEq

/-- The `point` with `10 ^ (point - 1) ≤ num / den < 10 ^ point`. -/
def decimalPoint (num den : Nat) : Int :=
  if den ≤ num then (Nat.toDigits 10 (num / den)).length
  else 1 - (Nat.toDigits 10 ((den - 1) / num)).length

/-- The largest multiple of `10 ^ exponent` that is not above `num / den`, and what is left. -/
def floorAt (exponent : Int) (num den : Nat) : Nat × Nat × Nat :=
  let (n, d) := if 0 ≤ exponent then (num, den * tenTo exponent.toNat)
    else (num * tenTo (-exponent).toNat, den)
  (n / d, n % d, d)

/-- The decimals with `count` digits around `num / den`, the nearer first. -/
def candidates (num den count : Nat) : List (Nat × Int) :=
  let exponent := decimalPoint num den - count
  let (below, rest, one) := floorAt exponent num den
  let nearest := below :: (if rest = 0 then [] else [below + 1])
  let ordered := if one < 2 * rest || (2 * rest = one && below % 2 = 1) then nearest.reverse
    else nearest
  ordered.map fun digits => (digits, exponent)

/-- The first decimal that reads back as `x`, trying `count` digits, then more, `tries` times. -/
def shortestFrom (x : Binary64) (num den count : Nat) : Nat → Option (Nat × Int)
  | 0 => none
  | tries + 1 =>
    match (candidates num den count).find? fun (digits, exponent) =>
        ofDecimal x.negative digits exponent = x with
    | some found => some found
    | none => shortestFrom x num den (count + 1) tries

/-- The digits of a finite double other than zero, and the power of ten after the point that is put
before them. -/
def shortest (x : Binary64) : Text × Int :=
  match shortestFrom x x.units unitsInOne 1 17 with
  | some (digits, exponent) =>
    let all := Text.ofNat digits
    (all.trimRightWhere (· = '0'), exponent + all.length)
  | none => (['0'], 1)

/-- Digits without an exponent, a point somewhere in them. -/
def positional (digits : Text) (point : Int) : Text :=
  let zeros (n : Nat) : Text := List.replicate n ('0' : CodePoint)
  if point ≤ 0 then "0." ++ zeros (-point).toNat ++ digits
  else
    let whole := point.toNat
    if digits.length ≤ whole then digits ++ zeros (whole - digits.length) ++ ".0"
    else digits.take whole ++ "." ++ digits.drop whole

/-- One digit before the point, the others after it, and an exponent of at least two digits. -/
def scientific (digits : Text) (point : Int) : Text :=
  let power := point - 1
  let fraction : Text := if digits.length ≤ 1 then [] else '.' :: digits.drop 1
  digits.take 1 ++ fraction ++ "e" ++ (if power < 0 then "-" else "+") ++ Text.padded 2 power.natAbs

/-- The shortest text that reads back as `x`. -/
def toText (x : Binary64) : Text :=
  let sign : Text := if x.negative then "-" else ""
  if x.isNaN then "nan"
  else if x.isInfinite then sign ++ "inf"
  else if x.isZero then sign ++ "0.0"
  else
    let (digits, point) := x.shortest
    sign ++ if -4 < point && point ≤ 16 then positional digits point else scientific digits point

end Binary64

end Acceptance
