import DualModule.Json.Document
/-!
# What a JSON number stands for

A number without fraction and exponent is an integer if it fits 64 bits.  Every other number is a
floating-point number; it is computed from the digits that fit 64 bits and a power of ten, and is
refused if it is too large.

## Main Definitions

* `Json.Numeral`, `Json.Number.numeral`
-/

namespace DualModule.Json

/-- What a number stands for. -/
inductive Numeral where
  | integer (n : Int)
  | float (x : Float)

/-- The largest integer of 64 bits. -/
def maxWord : Nat := 0xFFFFFFFFFFFFFFFF

/-- The largest exponent that is read. -/
def maxExponent : Nat := 0x7FFFFFFF

/-- Appends digits to a number as long as it fits 64 bits: the number, and how many digits were
appended. -/
def appendDigits (n : Nat) : List Nat → Nat × Nat
  | [] => (n, 0)
  | d :: ds =>
    if maxWord < n * 10 + d then (n, 0)
    else (appendDigits (n * 10 + d) ds).map id (· + 1)

/-- `x * 10 ^ e`, or nothing if that is too large; very small numbers become zero.  `budget` bounds
the number of steps. -/
def scaleByTen? (budget : Nat) (x : Float) (e : Int) : Option Float :=
  if e.natAbs ≤ 308 then
    let power := Float.ofScientific 1 false e.natAbs
    if 0 ≤ e then if (x * power).isInf then none else some (x * power) else some (x / power)
  else if x == 0.0 then some x
  else if 0 ≤ e then none
  else match budget with
    | 0 => some 0.0
    | budget + 1 => scaleByTen? budget (x / Float.ofScientific 1 false 308) (e + 308)

/-- The size of a number with fraction or exponent, or too many digits for an integer. -/
def Number.size? (n : Number) : Option Float :=
  let (whole, wholeCount) := appendDigits 0 n.integer
  let (digits, fractionCount) := appendDigits whole (n.fraction.getD [])
  let start : Int := (n.integer.length - wholeCount : Nat) - fractionCount
  let size := (UInt64.ofNat digits).toFloat
  match n.exponent with
  | none => scaleByTen? 10 size start
  | some (negative, ds) =>
    let e := Nat.ofDigitChars 10 (ds.map Nat.digitChar) 0
    if maxExponent < e then
      if digits ≠ 0 ∧ ¬ negative then none else some 0.0
    else scaleByTen? 10 size (if negative then start - e else start + e)

/-- What a number stands for. -/
def Number.numeral (n : Number) : Except Defect Numeral :=
  let sign (x : Float) : Float := if n.negative then -x else x
  let (whole, count) := appendDigits 0 n.integer
  if n.fraction.isNone ∧ n.exponent.isNone ∧ count = n.integer.length then
    if ¬ n.negative then .ok (.integer whole)
    else if 0 < whole ∧ whole ≤ 0x8000000000000000 then .ok (.integer (-whole))
    else .ok (.float (sign (UInt64.ofNat whole).toFloat))
  else match n.size? with
    | some x => .ok (.float (sign x))
    | none => .error .malformed

end DualModule.Json
