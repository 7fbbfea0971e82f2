import ContentTables.Config.File.Text

/-!
# Dates and times of a settings file

* `Moment.scanDate` : a date such as `2024-02-29`;
* `Moment.scanTime`, `Moment.isOffset` : a time such as `23:59:60.5`, and an offset such as
  `+01:00`;
* `Moment.isWritten` : a date, a time, or both together.
-/

namespace ContentTables

namespace SettingsFile

namespace Moment

/-- A number of two digits in a range, and the rest. -/
def twoDigits? (least most : Nat) : List Char → Option (Nat × List Char)
  | a :: b :: rest =>
    let n := Literal.digitsValue [a, b]
    if a.isDigit ∧ b.isDigit ∧ least ≤ n ∧ n ≤ most then some (n, rest) else none
  | _ => none

def daysOf (year month : Nat) : Nat :=
  if month = 2 then
    if year % 4 = 0 ∧ (year % 100 ≠ 0 ∨ year % 400 = 0) then 29 else 28
  else if month = 4 ∨ month = 6 ∨ month = 9 ∨ month = 11 then 30
  else 31

/-- What follows a date: the year in four digits, the month and a day that the month has. -/
def scanDate (cs : List Char) : Option (List Char) := do
  let year := cs.take 4
  if year.length = 4 ∧ year.all Char.isDigit then
    let rest ← behind? '-' (cs.drop 4)
    let (month, rest) ← twoDigits? 1 12 rest
    let rest ← behind? '-' rest
    let (_, rest) ← twoDigits? 1 (daysOf (Literal.digitsValue year) month) rest
    some rest
  else none

/-- What follows a time: hours, minutes and seconds, which may be 60 and may have places. -/
def scanTime (cs : List Char) : Option (List Char) := do
  let (_, rest) ← twoDigits? 0 23 cs
  let (_, rest) ← twoDigits? 0 59 (← behind? ':' rest)
  let (_, rest) ← twoDigits? 0 60 (← behind? ':' rest)
  match rest with
  | '.' :: rest =>
    if (rest.takeWhile Char.isDigit).isEmpty then none else some (rest.dropWhile Char.isDigit)
  | rest => some rest

/-- Nothing, a `Z`, or hours and minutes with a sign. -/
def isOffset : List Char → Bool
  | [] => true
  | ['Z'] | ['z'] => true
  | c :: cs =>
    (c == '+' || c == '-') && (do
      let (_, rest) ← twoDigits? 0 23 cs
      let (_, rest) ← twoDigits? 0 59 (← behind? ':' rest)
      some rest) == some []

def isDate (cs : List Char) : Bool := scanDate cs == some []

/-- A time that belongs to a date, and so may have an offset. -/
def isTime (cs : List Char) : Bool := (scanTime cs).any isOffset

/-- A time, a date, or a date with a time behind a `T`. -/
def isWritten (cs : List Char) : Bool :=
  match scanDate cs with
  | some [] => true
  | some (c :: rest) => (c == 'T' || c == 't') && isTime rest
  | none => scanTime cs == some []

example : isWritten "2024-02-29T23:59:60.5+01:00".toList = true ∧
    isWritten "2023-02-29".toList = false := by decide +kernel

end Moment

end SettingsFile

end ContentTables
