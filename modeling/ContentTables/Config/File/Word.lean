import ContentTables.Config.File.Moment
import ContentTables.Json.Basic

/-!
# Words of a settings file

A value without quotes and brackets is a word.

* `Word.integer?` : integers of 64 bits with a sign, in decimal or, without a sign, in hexadecimal,
  octal or binary; single underscores may group the digits;
* `Word.isReal` : numbers with a point or an exponent, infinity, and what is no number;
* `scanWord` : the value of a word, which may also be a truth value or a moment. No setting takes a
  number that is no integer, or a moment. So the one keeps no value, and the other stands for a
  table without settings.
-/

namespace ContentTables

namespace SettingsFile

namespace Word

/-! ## Integers -/

/-- Digits, with the single underscores between them left out. -/
def ungrouped? (isDigit : Char → Bool) : List Char → Option (List Char)
  | [] => none
  | [c] => if isDigit c then some [c] else none
  | c :: '_' :: rest => if isDigit c then (ungrouped? isDigit rest).map (c :: ·) else none
  | c :: rest => if isDigit c then (ungrouped? isDigit rest).map (c :: ·) else none

/-- Decimal digits of which the first is zero only if it is alone. -/
def whole? (cs : List Char) : Option (List Char) := do
  let digits ← ungrouped? Char.isDigit cs
  if 1 < digits.length ∧ digits.head? = some '0' then none else some digits

/-- The number written in digits of a base up to 16. -/
def based? (base : Nat) (cs : List Char) : Option Nat := do
  let digits ← ungrouped? (fun c => (Scanner.hexValue? c).any (· < base)) cs
  some (digits.foldl (fun n c => n * base + (Scanner.hexValue? c).getD 0) 0)

def integer? (cs : List Char) : Option Integer := do
  let n ←
    match cs with
    | '0' :: 'x' :: rest => (based? 16 rest).map Int.ofNat
    | '0' :: 'o' :: rest => (based? 8 rest).map Int.ofNat
    | '0' :: 'b' :: rest => (based? 2 rest).map Int.ofNat
    | _ =>
      let (negative, cs) := Scanner.takeSign cs
      (whole? cs).map fun digits =>
        let n : Int := Literal.digitsValue digits
        if negative then -n else n
  if n < 0x8000000000000000 then Integer.ofInt? n else none

/-! ## Other numbers -/

/-- The number `digits * 10 ^ exponent` is so large that the nearest double is infinite. -/
def exceedsDoubles (digits : List Char) (exponent : Int) : Bool :=
  let digits := digits.dropWhile (· == '0')
  let places := digits.length + exponent
  if digits.isEmpty || places < 300 then false
  else if 320 < places then true
  else
    let (num, den) :=
      if 0 ≤ exponent then (Literal.digitsValue digits * Nat.pow 10 exponent.toNat, 1)
      else (Literal.digitsValue digits, Nat.pow 10 (-exponent).toNat)
    (Binary64.nearest? num den).isNone

def isGroupedDigit (c : Char) : Bool := c.isDigit || c == '_'

/-- The digits behind a point, which may be left out, and the rest. -/
def places? : List Char → Option (List Char × List Char)
  | '.' :: cs =>
    (ungrouped? Char.isDigit (cs.takeWhile isGroupedDigit)).map (·, cs.dropWhile isGroupedDigit)
  | cs => some ([], cs)

/-- The exponent, which may be left out; nothing may follow it. -/
def exponent? : List Char → Option Int
  | [] => some 0
  | c :: cs =>
    if c = 'e' ∨ c = 'E' then
      let (negative, cs) := Scanner.takeSign cs
      (ungrouped? Char.isDigit cs).map fun digits =>
        let n : Int := Literal.digitsValue digits
        if negative then -n else n
    else none

/-- Below zero a number may be of any size, above zero it must not exceed the doubles. -/
def isReal (cs : List Char) : Bool :=
  let (negative, cs) := Scanner.takeSign cs
  cs == "inf".toList || cs == "nan".toList ||
    match whole? (cs.takeWhile isGroupedDigit), places? (cs.dropWhile isGroupedDigit) with
    | some whole, some (places, rest) =>
      match exponent? rest with
      | some e =>
        !(places.isEmpty && rest.isEmpty) &&
          (negative || !exceedsDoubles (whole ++ places) (e - places.length))
      | none => false
    | _, _ => false

/-! ## Words -/

def isWordChar (c : Char) : Bool :=
  c.isAlphanum || c == '_' || c == '-' || c == '+' || c == '.' || c == ':'

/-- The word at the front, and what follows it. -/
def split (cs : List Char) : List Char × List Char :=
  (cs.takeWhile isWordChar, cs.dropWhile isWordChar)

def value? (cs : List Char) : Option Json :=
  if cs = "true".toList then some (.bool true)
  else if cs = "false".toList then some (.bool false)
  else if Moment.isWritten cs then some (.obj [])
  else if isReal cs then some (.num (.float .zero))
  else (integer? cs).map fun n => .num (.int n)

end Word

/-- The value of a word, and what follows it. A blank may stand between a date and a time. -/
def scanWord (cs : List Char) : Option (Json × List Char) := do
  let (word, rest) := Word.split cs
  let v ← Word.value? word
  match rest with
  | ' ' :: more =>
    let (time, more) := Word.split more
    some (v, if Moment.isDate word && Moment.isTime time then more else rest)
  | _ => some (v, rest)

namespace Word

example : (integer? "-1_000".toList).map Integer.val = some (-1000) := by decide +kernel
example : (integer? "0xf_F".toList).map Integer.val = some 255 := by decide +kernel
example : integer? "012".toList = none ∧ integer? "1__0".toList = none := by decide +kernel
example : isReal "1_0.5e-3".toList = true ∧ isReal "1.e3".toList = false := by decide +kernel

end Word

end SettingsFile

end ContentTables
