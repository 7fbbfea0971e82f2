import ContentTables.Config.Quoted
import ContentTables.Json.Basic
import ContentTables.Text.Basic

/-!
# Variables of the environment

A variable whose name starts with `simplified_` sets a setting.

* `Variable.path?` : the setting that a name stands for, level by level;
* `Variable.scanValue`, `Variable.value` : the value that a text stands for. A text may quote,
  list values between brackets, and name them between braces. A text that breaks the rules stands
  for itself.
-/

namespace ContentTables

namespace Variable

open SettingText

/-! ## Names -/

/-- The start of the names that count, in any case. -/
def namePrefix : List Char := "simplified_".toList

/-- Two underscores, like a point, separate the levels of a name. -/
def splitLevels : List Char → List (List Char)
  | [] => [[]]
  | '_' :: '_' :: rest => [] :: splitLevels rest
  | '.' :: rest => [] :: splitLevels rest
  | c :: rest =>
    match splitLevels rest with
    | level :: levels => (c :: level) :: levels
    | [] => [[c]]

/-- The setting that a variable names, if its name counts and no level is empty. Blanks around the
name and behind its start do not belong to it. -/
def path? (name : String) : Option (List String) :=
  let cs := trimBlankChars (lowered name)
  if namePrefix.isPrefixOf cs then
    let levels := splitLevels (trimBlankChars (cs.drop namePrefix.length))
    if levels.any (·.isEmpty) then none else some (levels.map String.ofList)
  else none

/-! ## Bare values -/

/-- An integer that fits 64 bits. -/
def integer? (cs : List Char) : Option Json :=
  let (negative, digits) := Scanner.takeSign cs
  if digits.isEmpty || digits.any (!·.isDigit) then none
  else
    let n := Literal.digitsValue digits
    (Integer.ofInt? (if negative then -n else n)).map fun n => .num (.int n)

/-- Digits around a point, with or without an exponent. -/
def isReal (cs : List Char) : Bool :=
  let (_, cs) := Scanner.takeSign cs
  let (whole, cs) := Scanner.takeDigits cs
  match cs with
  | '.' :: cs =>
    let (places, cs) := Scanner.takeDigits cs
    !(whole.isEmpty && places.isEmpty) &&
      match cs with
      | [] => true
      | c :: cs =>
        let (_, cs) := Scanner.takeSign cs
        (c == 'e' || c == 'E') && !cs.isEmpty && cs.all Char.isDigit
  | _ => false

/-- A number if the characters read as one, and a text otherwise. What number it is does not matter
where it is no integer, because no setting takes it. -/
def bareValue (cs : List Char) : Json :=
  if isReal cs then .num (.float .zero)
  else (integer? cs).getD (.str (String.ofList cs))

def isSeparator (c : Char) : Bool :=
  c == ',' || c == '\x7b' || c == '\x7d' || c == '[' || c == ']'

/-- A truth value, or all up to a separator, without the blanks around it. -/
def scanBare (cs : List Char) : Json × List Char :=
  if "true".toList.isPrefixOf cs then (.bool true, cs.drop 4)
  else if "false".toList.isPrefixOf cs then (.bool false, cs.drop 5)
  else (bareValue (trimBlankChars (cs.takeWhile (!isSeparator ·))), cs.dropWhile (!isSeparator ·))

/-! ## Values -/

def isSpace (c : Char) : Bool :=
  c == ' ' || c == '\t' || c == '\n' || c == '\x0c' || c == '\r'

def skipSpace (cs : List Char) : List Char := cs.dropWhile isSpace

/-- Items with commas between them up to a closing mark, before which a comma may stand; `fuel`
bounds their number. -/
def scanItems {α : Type} (close : Char) (scanItem : List Char → Option (α × List Char)) :
    Nat → List Char → Option (List α × List Char)
  | 0, _ => none
  | fuel + 1, cs =>
    if cs.head? = some close then some ([], cs.drop 1)
    else do
      let (item, rest) ← scanItem cs
      match rest with
      | [] => none
      | c :: rest =>
        if c = ',' then
          let (items, rest) ← scanItems close scanItem fuel rest
          some (item :: items, rest)
        else if c = close then some ([item], rest)
        else none

/-- A key, an equals sign and a value. -/
def scanEntry (scanItem : List Char → Option (Json × List Char)) (cs : List Char) :
    Option ((String × Json) × List Char) := do
  let (key, rest) ←
    match skipSpace cs with
    | '"' :: rest => scanQuoted rest
    | cs => scanBareKey cs
  match skipSpace rest with
  | '=' :: rest =>
    let (v, rest) ← scanItem rest
    some ((key, v), rest)
  | _ => none

/-- A value with the space around it, in which values lie inside each other fewer than `levels`
times. -/
def scanValue : Nat → List Char → Option (Json × List Char)
  | 0, _ => none
  | levels + 1, cs => do
    let (v, rest) ←
      match skipSpace cs with
      | '\x7b' :: rest =>
        (scanItems '\x7d' (scanEntry (scanValue levels)) rest.length rest).map
          fun (entries, rest) => (Json.obj (ofPairs entries), rest)
      | '[' :: rest =>
        (scanItems ']' (scanValue levels) rest.length rest).map
          fun (items, rest) => (Json.arr items, rest)
      | '"' :: rest => (scanQuoted rest).map fun (s, rest) => (Json.str s, rest)
      | '\'' :: c :: '\'' :: rest => some (.str (String.singleton c), rest)
      | '\'' :: _ => none
      | cs => some (scanBare cs)
    some (v, skipSpace rest)

/-- The value that a text stands for: itself, unless a value is all there is. -/
def value (text : String) : Json :=
  match scanValue (text.length + 1) text.toList with
  | some (v, []) => v
  | _ => .str text

/-- The value that a variable puts at its place. -/
def nested : List String → Json → Json
  | [], v => v
  | key :: keys, v => .obj [(key, nested keys v)]

end Variable

end ContentTables
