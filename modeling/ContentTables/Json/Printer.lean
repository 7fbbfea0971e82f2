import ContentTables.Json.Basic

/-!
# Compact text of a value

No blanks between the parts. In a string only the quote, the backslash and the control characters
below U+0020 are escaped, five of these with a letter of their own; every other character stands for
itself.

* `Json.chars`, `Json.text` : the compact text, as characters and as a string;
* `Json.quotedChars` : a string with its quotes.
-/

namespace ContentTables

namespace Json

def hexDigit (n : Nat) : Char :=
  if n < 10 then Char.ofNat ('0'.toNat + n) else Char.ofNat ('a'.toNat + (n - 10))

/-- One character inside the quotes. -/
def escapedChars (c : Char) : List Char :=
  if c = '"' then ['\\', '"']
  else if c = '\\' then ['\\', '\\']
  else if c = '\n' then ['\\', 'n']
  else if c = '\r' then ['\\', 'r']
  else if c = '\t' then ['\\', 't']
  else if c = '\x08' then ['\\', 'b']
  else if c = '\x0c' then ['\\', 'f']
  else if c.toNat < 0x20 then
    ['\\', 'u', '0', '0', hexDigit (c.toNat / 16), hexDigit (c.toNat % 16)]
  else [c]

def quotedChars (s : String) : List Char :=
  '"' :: (s.toList.flatMap escapedChars ++ ['"'])

mutual

def chars : Json → List Char
  | .null => ['n', 'u', 'l', 'l']
  | .bool true => ['t', 'r', 'u', 'e']
  | .bool false => ['f', 'a', 'l', 's', 'e']
  | .num n => n.chars
  | .str s => quotedChars s
  | .arr [] => ['[', ']']
  | .arr (v :: vs) => '[' :: (v.chars ++ itemChars vs)
  | .obj [] => ['{', '}']
  | .obj ((name, v) :: fs) => '{' :: (quotedChars name ++ ':' :: (v.chars ++ fieldChars fs))

/-- The items after the first one of an array, each behind its comma, and the closing bracket. -/
def itemChars : List Json → List Char
  | [] => [']']
  | v :: vs => ',' :: (v.chars ++ itemChars vs)

/-- The fields after the first one of an object, each behind its comma, and the closing brace. -/
def fieldChars : List (String × Json) → List Char
  | [] => ['}']
  | (name, v) :: fs => ',' :: (quotedChars name ++ ':' :: (v.chars ++ fieldChars fs))

end

def text (v : Json) : String := String.ofList v.chars

example : (Json.obj [("a\n", .arr [.null, .bool true]), ("b", .str "\x01é")]).text =
    "\x7b\"a\\n\":[null,true],\"b\":\"\\u0001é\"\x7d" := by decide

end Json

end ContentTables
