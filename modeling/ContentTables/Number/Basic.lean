import ContentTables.Number.Shortest

/-!
# Numbers of a document

* `Integer` : the integers that fit 64 bits, with or without a sign;
* `Number` : such an integer or a double, and never equal across the two;
* `Number.text` : the written form. An integer is written in full. A double is written with the
  fewest digits that read back: positionally when the exponent of its first digit is between -5 and
  15, always with a point, and with a signed exponent otherwise.
-/

namespace ContentTables

structure Integer where
  val : Int
  lower : -0x8000000000000000 ≤ val
  upper : val < 0x10000000000000000
deriving DecidableEq

namespace Integer

def ofInt? (n : Int) : Option Integer :=
  if h : -0x8000000000000000 ≤ n ∧ n < 0x10000000000000000 then some ⟨n, h.1, h.2⟩ else none

def ofUInt64 (n : UInt64) : Integer :=
  ⟨n.toNat, by omega, by have := n.toNat_lt; omega⟩

instance : Inhabited Integer := ⟨ofUInt64 0⟩

end Integer

inductive Number where
  | int (n : Integer)
  | float (x : Binary64)
deriving DecidableEq, Inhabited

namespace Number

def ofUInt64 (n : UInt64) : Number := .int (.ofUInt64 n)

/-- Equality of values: an integer never equals a double, and the two double zeros are equal. -/
def sameValue : Number → Number → Bool
  | .int n, .int m => n == m
  | .float x, .float y => x.sameValue y
  | _, _ => false

def isZero : Number → Bool
  | .int n => n.val == 0
  | .float x => x.isZero

/-! ## Written form -/

/-- The digits of a positive decimal with a point among, before or after them. -/
def positional (digits : List Char) (exponent : Int) : List Char :=
  if 0 ≤ exponent then digits ++ List.replicate exponent.toNat '0' ++ ['.', '0']
  else
    let places := (-exponent).toNat
    if places < digits.length then
      digits.take (digits.length - places) ++ '.' :: digits.drop (digits.length - places)
    else '0' :: '.' :: (List.replicate (places - digits.length) '0' ++ digits)

/-- One digit before the point, the others after it, then the exponent of the first digit. -/
def scientific (digits : List Char) (exponent : Int) : List Char :=
  digits.take 1 ++ (if digits.length ≤ 1 then [] else '.' :: digits.drop 1) ++
    'e' :: (if exponent < 0 then '-' else '+') :: Nat.toDigits 10 exponent.natAbs

def decimalChars (d : Decimal) : List Char :=
  let digits := Nat.toDigits 10 d.digits
  let exponent := d.scientificExponent
  if -5 ≤ exponent ∧ exponent ≤ 15 then positional digits d.exponent
  else scientific digits exponent

def floatChars (x : Binary64) : List Char :=
  (if x.negative then ['-'] else []) ++
    if x.isZero then ['0', '.', '0'] else decimalChars (Decimal.shortest x)

def intChars (n : Int) : List Char :=
  (if n < 0 then ['-'] else []) ++ Nat.toDigits 10 n.natAbs

def chars : Number → List Char
  | .int n => intChars n.val
  | .float x => floatChars x

def text (n : Number) : String := String.ofList n.chars

end Number

end ContentTables
