/-!
# Finite binary64 numbers

* `Binary64` : a sign and a magnitude, the magnitude being the 63 low bits of the interchange
  format read as a number, so that larger magnitudes are larger numbers;
* `Binary64.significand`, `Binary64.exponent` : the absolute value is
  `significand * 2 ^ exponent`;
* `Binary64.nearest?` : the double nearest to a fraction, a tie going to the even neighbour, and
  `none` where that neighbour would be infinite;
* `Binary64.mul?`, `Binary64.div?` : products and quotients, rounded that way.

All arithmetic is on `Nat`, so every value can be computed inside a proof.
-/

namespace ContentTables

structure Binary64 where
  negative : Bool
  magnitude : Nat
  /-- The bound is the infinity of the format. -/
  finite : magnitude < 0x7FF0000000000000
deriving DecidableEq

namespace Binary64

def zero : Binary64 := ⟨false, 0, by decide⟩

instance : Inhabited Binary64 := ⟨zero⟩

def isZero (x : Binary64) : Bool := x.magnitude == 0

/-- Equality of values: the two zeros are equal. -/
def sameValue (x y : Binary64) : Bool :=
  x.isZero && y.isZero || decide (x = y)

def withSign (negative : Bool) (x : Binary64) : Binary64 := { x with negative }

def significand (x : Binary64) : Nat :=
  if x.magnitude < 0x10000000000000 then x.magnitude
  else 0x10000000000000 + x.magnitude % 0x10000000000000

def exponent (x : Binary64) : Int :=
  (max (x.magnitude / 0x10000000000000) 1 : Nat) - 1075

/-- `num * 2 ^ e / den`, as a numerator and a denominator. -/
def scale (num den : Nat) (e : Int) : Nat × Nat :=
  if 0 ≤ e then (num * Nat.pow 2 e.toNat, den) else (num, den * Nat.pow 2 (-e).toNat)

/-- The absolute value as a fraction. -/
def fraction (x : Binary64) : Nat × Nat :=
  scale x.significand 1 x.exponent

/-! ## Rounding -/

/-- `num / den` rounded to the nearest natural number, a tie going to the even one. -/
def roundHalfEven (num den : Nat) : Nat :=
  let quotient := num / den
  match compare (2 * (num % den)) den with
  | .lt => quotient
  | .eq => quotient + quotient % 2
  | .gt => quotient + 1

/-- The exponent of the leading bit of `num / den`. -/
def leadingExponent (num den : Nat) : Int :=
  let e := (num.log2 : Int) - den.log2
  let (n, d) := scale num den (-e)
  if d ≤ n then e else e - 1

/-- The exponent of the last bit that a double near `num / den` keeps. -/
def lastExponent (num den : Nat) : Int :=
  max (leadingExponent num den - 52) (-1074)

/-- The magnitude nearest to `num / den`; one past the largest stands for infinity. -/
def nearestMagnitude (num den : Nat) : Nat :=
  if num = 0 then 0 else
    let e := lastExponent num den
    let (n, d) := scale num den (-e)
    (e + 1074).toNat * 0x10000000000000 + roundHalfEven n d

def nearest? (num den : Nat) : Option Binary64 :=
  let magnitude := nearestMagnitude num den
  if finite : magnitude < 0x7FF0000000000000 then some ⟨false, magnitude, finite⟩ else none

def mul? (x y : Binary64) : Option Binary64 :=
  (nearest? (x.fraction.1 * y.fraction.1) (x.fraction.2 * y.fraction.2)).map
    (withSign (x.negative != y.negative))

def div? (x y : Binary64) : Option Binary64 :=
  (nearest? (x.fraction.1 * y.fraction.2) (x.fraction.2 * y.fraction.1)).map
    (withSign (x.negative != y.negative))

/-! ## Fixed points of the format -/

example : (nearest? 1 1).map magnitude = some 0x3FF0000000000000 := by decide
example : (nearest? 1 10).map magnitude = some 0x3FB999999999999A := by decide +kernel
example : (nearest? (2 ^ 64) 1).map magnitude = some 0x43F0000000000000 := by decide +kernel
example : (nearest? 1 (2 ^ 1075)).map magnitude = some 0 := by decide +kernel
example : (nearest? 3 (2 ^ 1075)).map magnitude = some 2 := by decide +kernel
example : nearest? (2 ^ 1024 - 2 ^ 970) 1 = none := by decide +kernel
example : (nearest? (2 ^ 1024 - 2 ^ 970 - 1) 1).map magnitude = some 0x7FEFFFFFFFFFFFFF := by
  decide +kernel

end Binary64

end ContentTables
