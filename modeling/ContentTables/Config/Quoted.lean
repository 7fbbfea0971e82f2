import ContentTables.Json.Scanner

/-!
# Quoted text in settings

Settings files and variables quote text in the same way: between double quotes, with escapes.

* `isTextChar`, `isKeyChar` : what text and what a bare key may hold;
* `takeUntil` : the characters before a closing mark;
* `unescape?` : those characters with their escapes resolved;
* `scanQuoted` : a text between double quotes;
* `scanBareKey` : a key without quotes.
-/

namespace ContentTables

namespace SettingText

/-- All but the control characters, of which only the tab is text. -/
def isTextChar (c : Char) : Bool := c == '\t' || 0x20 ≤ c.toNat && c.toNat != 0x7f

def isKeyChar (c : Char) : Bool := c.isAlphanum || c == '_' || c == '-'

/-! ## Closing marks -/

/-- A single closing quote: what of the mark is text still, which is nothing, and the rest. -/
def closing (quote : Char) : List Char → Option (List Char × List Char)
  | c :: rest => if c = quote then some ([], rest) else none
  | [] => none

/-- The characters up to a closing mark, and the rest behind it. Where a backslash escapes, the
character behind it closes nothing. -/
def takeUntil (close : List Char → Option (List Char × List Char)) (escapes : Bool) :
    List Char → Option (List Char × List Char)
  | [] => none
  | c :: rest =>
    match close (c :: rest) with
    | some found => some found
    | none =>
      if escapes && c == '\\' then
        match rest with
        | e :: rest => (takeUntil close escapes rest).map fun (cs, rest) => (c :: e :: cs, rest)
        | [] => none
      else (takeUntil close escapes rest).map fun (cs, rest) => (c :: cs, rest)

/-! ## Escapes -/

/-- The character of the code point written in hexadecimal digits. -/
def codePoint? (digits : List Char) : Option Char := do
  let values ← digits.mapM Scanner.hexValue?
  let n := values.foldl (fun n d => n * 16 + d) 0
  if n.isValidChar then some (Char.ofNat n) else none

/-- The text that characters with escapes stand for, `none` if one of them is not allowed or no
escape. -/
def unescape? (allowed : Char → Bool) : List Char → Option (List Char)
  | [] => some []
  | '\\' :: 'u' :: a :: b :: c :: d :: rest => do
    some ((← codePoint? [a, b, c, d]) :: (← unescape? allowed rest))
  | '\\' :: 'U' :: a :: b :: c :: d :: e :: f :: g :: h :: rest => do
    some ((← codePoint? [a, b, c, d, e, f, g, h]) :: (← unescape? allowed rest))
  | '\\' :: e :: rest => do
    let c ← if e = '/' then none else Scanner.escape? e
    some (c :: (← unescape? allowed rest))
  | c :: rest =>
    if c ≠ '\\' ∧ allowed c then (unescape? allowed rest).map (c :: ·) else none

/-! ## Keys and texts -/

/-- The rest of a text behind its opening double quote. -/
def scanQuoted (cs : List Char) : Option (String × List Char) := do
  let (cs, rest) ← takeUntil (closing '"') true cs
  some (String.ofList (← unescape? isTextChar cs), rest)

def scanBareKey (cs : List Char) : Option (String × List Char) :=
  if (cs.takeWhile isKeyChar).isEmpty then none
  else some (String.ofList (cs.takeWhile isKeyChar), cs.dropWhile isKeyChar)

example : scanQuoted "a\\\"\\u0062\" c".toList = some ("a\"b", [' ', 'c']) := by decide +kernel

end SettingText

end ContentTables
