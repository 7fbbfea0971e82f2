import ContentTables.Number.Basic

/-!
# Number literals

A literal is its sign and its groups of digits, as a scanner cuts them out of a text.

* `Literal.value?` : the number that a literal denotes, and `none` where it is too large for a
  double.

A literal without a point and an exponent denotes an integer if that fits 64 bits, `-0` excepted.
Any other denotes a double, found in three steps:

1. the leading digits that fit an unsigned 64-bit word make the significand (`absorb`); of the
   digits that do not fit, those before the point count into the exponent;
2. the significand is rounded to a double;
3. the result is multiplied or divided by the double nearest to the power of ten (`shifted?`).

The steps round on their own, so the double found is not always the nearest to the literal.
-/

namespace ContentTables

structure Literal where
  negative : Bool
  whole : List Char
  fraction : List Char
  hasPoint : Bool
  /-- The sign of the exponent, true for minus, and its digits. -/
  exponent : Option (Bool × List Char)
deriving DecidableEq

namespace Literal

def digitsValue (digits : List Char) : Nat :=
  Nat.ofDigitChars 10 digits 0

/-- Appends digits to a significand while it stays below `2 ^ 64`; gives the rest back. -/
def absorb : Nat → List Char → Nat × List Char
  | s, [] => (s, [])
  | s, c :: cs =>
    let s' := s * 10 + (c.toNat - '0'.toNat)
    if s' < UInt64.size then absorb s' cs else (s, c :: cs)

/-- The double nearest to `10 ^ e`, for `e` up to 308. -/
def powerOfTen (e : Nat) : Binary64 :=
  (Binary64.nearest? (Nat.pow 10 e) 1).getD .zero

/-- A significand as a double, times ten to an exponent; `none` when the product is infinite. A
significand below `2 ^ 64` is zero once divided by `10 ^ 308` twice. -/
def shifted? (significand : Nat) (e : Int) : Option Binary64 := do
  let f ← Binary64.nearest? significand 1
  if f.isZero then some f
  else if 308 < e then none
  else if 0 ≤ e then f.mul? (powerOfTen e.toNat)
  else if -308 ≤ e then f.div? (powerOfTen (-e).toNat)
  else if -616 ≤ e then do (← f.div? (powerOfTen 308)).div? (powerOfTen (-e - 308).toNat)
  else some .zero

/-- The exponent written; `none` when its digits make it larger than any exponent in use. -/
def writtenExponent? : Option (Bool × List Char) → Option Int
  | none => some 0
  | some (negative, digits) =>
    let e := digitsValue digits
    if e < 0x80000000 then some (if negative then -e else e) else none

def exponentNegative (l : Literal) : Bool :=
  l.exponent.elim false Prod.fst

/-- The double that a literal denotes. A written exponent beyond all bounds gives zero if it is
negative or stands behind a zero significand. -/
def float? (l : Literal) : Option Binary64 :=
  let (s, rest) := absorb 0 l.whole
  let (s', rest') := absorb s l.fraction
  let places : Int := rest.length - (l.fraction.length - rest'.length : Nat)
  let magnitude :=
    match writtenExponent? l.exponent with
    | some e => shifted? s' (places + e)
    | none => if s' = 0 ∨ l.exponentNegative then some .zero else none
  magnitude.map (Binary64.withSign l.negative)

def integer? (l : Literal) : Option Integer :=
  if l.hasPoint ∨ l.exponent.isSome then none
  else
    let n := digitsValue l.whole
    if l.negative then (if n = 0 then none else Integer.ofInt? (-n)) else Integer.ofInt? n

def value? (l : Literal) : Option Number :=
  match l.integer? with
  | some n => some (.int n)
  | none => l.float?.map .float

end Literal

end ContentTables
