/-!
# Shortest decimals

The decimal with the fewest digits that still reads back as a given binary fraction.

A binary floating-point number `mantissa * 2 ^ exponent` stands for every real number that rounds
to it: those up to half a unit away on either side, and below a power of two only a quarter of one.
The ends count if the mantissa is even.  For one, two, three digits and so on the two neighbours of
the number among the decimals of that many digits are tried; the first hit is a shortest decimal,
and of two hits the nearer one is taken.

## Main Definitions

* `Binary`, `Binary.ofFloat`
* `Decimal`, `Binary.shortest`
-/

namespace DualModule

/-- A positive binary floating-point number, `mantissa * 2 ^ exponent`. -/
structure Binary where
  mantissa : Nat
  exponent : Int
  /-- whether the next smaller number is only half as far away as the next larger one -/
  lopsided : Bool

/-- A decimal number, `digits * 10 ^ exponent`. -/
structure Decimal where
  digits : Nat
  exponent : Int
deriving DecidableEq

/-- The place of the bit that leads a mantissa and is not stored: the fifty-third. -/
def leadingBit : Nat := 0x10000000000000

/-- A positive finite float as a binary number. -/
def Binary.ofFloat (x : Float) : Binary :=
  let bits := x.toBits.toNat
  let field : Nat := bits / leadingBit % 2048
  let low : Nat := bits % leadingBit
  if field = 0 then ⟨low, -1074, false⟩
  else ⟨leadingBit + low, (field : Int) - 1075, low = 0 ∧ 1 < field⟩

namespace Binary

/-- A fraction of natural numbers. -/
structure Ratio where
  numerator : Nat
  denominator : Nat

/-- `n * 2 ^ e` as a fraction. -/
def scaled (n : Nat) (e : Int) : Ratio := ⟨n * Nat.pow 2 e.toNat, Nat.pow 2 (-e).toNat⟩

/-- `n * 10 ^ e` as a fraction. -/
def Ratio.ofDecimal (d : Decimal) : Ratio :=
  ⟨d.digits * Nat.pow 10 d.exponent.toNat, Nat.pow 10 (-d.exponent).toNat⟩

/-- Whether one fraction is less than another. -/
def Ratio.lt (a b : Ratio) : Bool := a.numerator * b.denominator < b.numerator * a.denominator

/-- The distance between two fractions. -/
def Ratio.distance (a b : Ratio) : Ratio :=
  let x := a.numerator * b.denominator
  let y := b.numerator * a.denominator
  ⟨if x < y then y - x else x - y, a.denominator * b.denominator⟩

/-- The number itself, in quarters of its last place. -/
def value (b : Binary) : Ratio := scaled (4 * b.mantissa) (b.exponent - 2)

/-- Whether a decimal reads back as the number. -/
def readsBack (b : Binary) (d : Decimal) : Bool :=
  let lower := scaled (4 * b.mantissa - if b.lopsided then 1 else 2) (b.exponent - 2)
  let upper := scaled (4 * b.mantissa + 2) (b.exponent - 2)
  let x := Ratio.ofDecimal d
  if b.mantissa % 2 = 0 then !x.lt lower && !upper.lt x else lower.lt x && x.lt upper

/-- The exponent of the first digit of a fraction below one: how often it has to be multiplied by
ten to reach one, at most `budget` times. -/
def leadingZeros (budget : Nat) (r : Ratio) : Nat :=
  match budget with
  | 0 => 0
  | budget + 1 =>
    if r.numerator < r.denominator then
      leadingZeros budget ⟨10 * r.numerator, r.denominator⟩ + 1
    else 0

/-- The power of ten of the first digit of a positive fraction. -/
def magnitude (r : Ratio) : Int :=
  if r.denominator ≤ r.numerator then
    ((Nat.toDigits 10 (r.numerator / r.denominator)).length : Int) - 1
  else -(leadingZeros 400 r : Int)

/-- Drops zeros from the end of the digits, at most `budget` of them. -/
def stripZeros (budget : Nat) (d : Decimal) : Decimal :=
  match budget with
  | 0 => d
  | budget + 1 =>
    if d.digits % 10 = 0 ∧ 0 < d.digits then stripZeros budget ⟨d.digits / 10, d.exponent + 1⟩
    else d

/-- The decimal of `count` digits next to the number that reads back as it, if there is one. -/
def nearest? (b : Binary) (count : Nat) : Option Decimal :=
  let exponent := magnitude b.value - count + 1
  let grid := Ratio.mk (b.value.numerator * Nat.pow 10 (-exponent).toNat)
    (b.value.denominator * Nat.pow 10 exponent.toNat)
  let below : Decimal := ⟨grid.numerator / grid.denominator, exponent⟩
  let above : Decimal := ⟨grid.numerator / grid.denominator + 1, exponent⟩
  match b.readsBack below, b.readsBack above with
  | true, true =>
    if ((Ratio.ofDecimal above).distance b.value).lt ((Ratio.ofDecimal below).distance b.value)
    then some above else some below
  | true, false => some below
  | false, true => some above
  | false, false => none

/-- The decimal with the fewest digits that reads back as the number; seventeen always do. -/
def shortest (b : Binary) : Decimal :=
  stripZeros 20 (((List.range 17).findSome? fun n => b.nearest? (n + 1)).getD ⟨0, 0⟩)

end Binary

end DualModule
