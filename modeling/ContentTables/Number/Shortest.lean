import ContentTables.Number.Binary64

/-!
# The fewest digits that read back

A decimal text reads back as a double when it lies in the interval of numbers that round to it;
the ends of the interval belong to it exactly when the significand is even, since a tie goes to
the even neighbour.

* `ReadInterval`, `ReadInterval.around` : that interval, as two fractions over one denominator;
* `Decimal` : `digits * 10 ^ exponent`;
* `shortest` : the decimal with the fewest digits in the interval, the nearer of two. On a grid of
  decimals of one length only the two neighbours of the number are tried: if any point of the grid
  lies in the interval, so does one of them.
-/

namespace ContentTables

/-- Numbers from `low / den` to `high / den`, around `mid / den`. -/
structure ReadInterval where
  low : Nat
  mid : Nat
  high : Nat
  den : Nat
  closed : Bool

/-- The numbers that round to a positive double. Below a power of two the neighbour is half as far
as above it. -/
def ReadInterval.around (x : Binary64) : ReadInterval :=
  let m := x.significand
  let (unit, den) := Binary64.scale 1 1 (x.exponent - 2)
  let below := if m = 0x10000000000000 ∧ 0x20000000000000 ≤ x.magnitude then 1 else 2
  ⟨(4 * m - below) * unit, 4 * m * unit, (4 * m + 2) * unit, den, m % 2 == 0⟩

/-- The number `digits * 10 ^ exponent`. -/
structure Decimal where
  digits : Nat
  exponent : Int
deriving DecidableEq

namespace Decimal

/-- `num / den / 10 ^ e`, as a numerator and a denominator. -/
def unscale (num den : Nat) (e : Int) : Nat × Nat :=
  if 0 ≤ e then (num, den * Nat.pow 10 e.toNat) else (num * Nat.pow 10 (-e).toNat, den)

/-- The number of decimal digits, none for zero. -/
def digitCount (n : Nat) : Nat :=
  if n = 0 then 0 else (Nat.toDigits 10 n).length

/-- The exponent of the first digit of `num / den`. -/
def leadingExponent (num den : Nat) : Int :=
  if den ≤ num then digitCount (num / den) - 1 else -digitCount ((den - 1) / num)

/-- Does the decimal lie in the interval? -/
def within (i : ReadInterval) (d : Decimal) : Bool :=
  let (n, m) := unscale i.den 1 (-d.exponent)
  let value := d.digits * n
  if i.closed then i.low * m ≤ value && value ≤ i.high * m
  else i.low * m < value && value < i.high * m

/-- Moves the zeros at the end of the digits into the exponent; `fuel` bounds their number. -/
def dropZeros : Nat → Decimal → Decimal
  | 0, d => d
  | fuel + 1, d =>
    if d.digits % 10 = 0 ∧ d.digits ≠ 0 then dropZeros fuel ⟨d.digits / 10, d.exponent + 1⟩ else d

/-- The decimal of at most `count` digits in the interval and nearest to its middle, an even last
digit breaking a tie. -/
def ofLength? (i : ReadInterval) (count : Nat) : Option Decimal :=
  let e := leadingExponent i.mid i.den - (count - 1 : Nat)
  let (n, m) := unscale i.mid i.den e
  let below : Decimal := ⟨n / m, e⟩
  let above : Decimal := ⟨n / m + 1, e⟩
  match within i below, within i above with
  | true, true => some ⟨Binary64.roundHalfEven n m, e⟩
  | true, false => some below
  | false, true => some above
  | false, false => none

/-- Seventeen digits tell any two doubles apart, so the search ends there. -/
def shortest (x : Binary64) : Decimal :=
  let i := ReadInterval.around x
  dropZeros 17 (((List.range' 1 17).findSome? (ofLength? i)).getD ⟨0, 0⟩)

/-- The exponent of the first digit. -/
def scientificExponent (d : Decimal) : Int :=
  d.exponent + digitCount d.digits - 1

end Decimal

example : (Binary64.nearest? 1 10).map Decimal.shortest = some ⟨1, -1⟩ := by decide +kernel
example : (Binary64.nearest? (2 ^ 64) 1).map Decimal.shortest = some ⟨18446744073709552, 3⟩ := by
  decide +kernel
example : (Binary64.nearest? 1 (2 ^ 1074)).map Decimal.shortest = some ⟨5, -324⟩ := by
  decide +kernel
example : (Binary64.nearest? 100 1).map Decimal.shortest = some ⟨1, 2⟩ := by decide +kernel

end ContentTables
