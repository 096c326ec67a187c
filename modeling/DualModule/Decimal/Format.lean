import DualModule.Decimal.Shortest
/-!
# How numbers are shown

Floating-point numbers in messages.

A number is shown by its shortest decimal.  Numbers of ordinary size are written out, with at least
one digit on either side of the point; others have one digit before the point and a signed exponent
of at least two digits.

## Main Definitions

* `Decimal.format`, `formatFloat`
-/

namespace DualModule

/-- The exponents of the first digit for which a number is written out. -/
def writtenOut (magnitude : Int) : Bool := -5 ≤ magnitude && magnitude ≤ 15

/-- An exponent: signed, of at least two digits. -/
def formatExponent (e : Int) : String :=
  let digits := toString e.natAbs
  (if e < 0 then "e-" else "e+") ++ (if digits.length < 2 then "0" else "") ++ digits

/-- Shows a decimal whose digits do not end in zero. -/
def Decimal.format (d : Decimal) : String :=
  let digits := Nat.toDigits 10 d.digits
  let magnitude := (digits.length : Int) - 1 + d.exponent
  let zeros (n : Int) : List Char := List.replicate n.toNat '0'
  if writtenOut magnitude then
    if 0 ≤ d.exponent then String.ofList (digits ++ zeros d.exponent) ++ ".0"
    else if 0 ≤ magnitude then
      let whole := (magnitude + 1).toNat
      String.ofList (digits.take whole ++ '.' :: digits.drop whole)
    else String.ofList ('0' :: '.' :: zeros (-magnitude - 1) ++ digits)
  else match digits with
    | [d₀] => String.ofList [d₀] ++ formatExponent magnitude
    | d₀ :: rest => String.ofList (d₀ :: '.' :: rest) ++ formatExponent magnitude
    | [] => ""

/-- Shows a finite floating-point number. -/
def formatFloat (x : Float) : String :=
  let negative := x.toBits.toNat / 0x8000000000000000 = 1
  let size := if x.toBits.toNat % 0x8000000000000000 = 0 then "0.0"
    else (Binary.ofFloat x.abs).shortest.format
  if negative then "-" ++ size else size

end DualModule
