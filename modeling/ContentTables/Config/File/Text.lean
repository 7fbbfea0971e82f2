import ContentTables.Config.Quoted

/-!
# The text of a settings file

* `skipBlanks`, `skipLines`, `behind?`, `endLine?` : what stands between the parts of a file.
  Blanks are spaces and tabs, a `#` starts a comment, and a line ends with a line feed, with or
  without a carriage return before it;
* `scanLine` : a text on one line, with escapes between double quotes and literally between single
  ones;
* `scanText` : such a text, or a block between three quotes, which may go over several lines.
-/

namespace ContentTables

namespace SettingsFile

open SettingText

/-! ## Between the parts -/

def isBlank (c : Char) : Bool := c == ' ' || c == '\t'

def skipBlanks (cs : List Char) : List Char := cs.dropWhile isBlank

/-- Leaves out blanks, line ends and comments. A character that no comment may hold stays. -/
def skipLines (inComment : Bool) : List Char → List Char
  | [] => []
  | '\r' :: '\n' :: rest => skipLines false rest
  | c :: rest =>
    if c = '\n' then skipLines false rest
    else if inComment && isTextChar c || isBlank c || c == '#' then
      skipLines (inComment || c == '#') rest
    else c :: rest

/-- What follows a character that has to stand there. -/
def behind? (c : Char) : List Char → Option (List Char)
  | d :: rest => if d = c then some rest else none
  | [] => none

/-- What follows on the next line, if at most blanks and a comment are left of this one. -/
def endLine? (cs : List Char) : Option (List Char) :=
  let rest :=
    match skipBlanks cs with
    | '#' :: rest => rest.dropWhile isTextChar
    | rest => rest
  match rest with
  | [] => some []
  | '\n' :: rest => some rest
  | '\r' :: '\n' :: rest => some rest
  | _ => none

/-! ## Texts on one line -/

/-- The rest of a text behind its opening single quote. -/
def scanLiteral (cs : List Char) : Option (String × List Char) := do
  let (cs, rest) ← takeUntil (closing '\'') false cs
  if cs.all isTextChar then some (String.ofList cs, rest) else none

def scanLine : List Char → Option (String × List Char)
  | '"' :: rest => scanQuoted rest
  | '\'' :: rest => scanLiteral rest
  | _ => none

/-! ## Blocks -/

/-- Three closing quotes. Of further quotes directly before them, up to two belong to the text. -/
def closingBlock (quote : Char) (cs : List Char) : Option (List Char × List Char) :=
  if cs.take 3 = [quote, quote, quote] then
    let more := ((cs.drop 3).takeWhile (· == quote)).take 2
    some (more, cs.drop (3 + more.length))
  else none

/-- Every line end as a line feed. -/
def unifyLineEnds : List Char → List Char
  | [] => []
  | '\r' :: '\n' :: rest => '\n' :: unifyLineEnds rest
  | c :: rest => c :: unifyLineEnds rest

/-- The text of a block starts behind a line end that follows the opening quotes. -/
def blockLines (cs : List Char) : List Char :=
  match unifyLineEnds cs with
  | '\n' :: rest => rest
  | rest => rest

/-- A backslash at the end of a line takes away the line end and all blanks and line ends after
it; `skipping` holds behind such a backslash. -/
def joinLines (skipping : Bool) : List Char → List Char
  | [] => []
  | '\\' :: e :: rest =>
    if (skipBlanks (e :: rest)).head? = some '\n' then joinLines true rest
    else '\\' :: e :: joinLines false rest
  | c :: rest =>
    if skipping && (isBlank c || c == '\n') then joinLines true rest
    else c :: joinLines false rest

def isBlockChar (c : Char) : Bool := isTextChar c || c == '\n'

/-- The rest of a block behind its three double quotes. -/
def scanQuotedBlock (cs : List Char) : Option (String × List Char) := do
  let (cs, rest) ← takeUntil (closingBlock '"') true cs
  some (String.ofList (← unescape? isBlockChar (joinLines false (blockLines cs))), rest)

/-- The rest of a block behind its three single quotes. -/
def scanLiteralBlock (cs : List Char) : Option (String × List Char) := do
  let (cs, rest) ← takeUntil (closingBlock '\'') false cs
  let text := blockLines cs
  if text.all isBlockChar then some (String.ofList text, rest) else none

def scanText : List Char → Option (String × List Char)
  | '"' :: '"' :: '"' :: rest => scanQuotedBlock rest
  | '\'' :: '\'' :: '\'' :: rest => scanLiteralBlock rest
  | cs => scanLine cs

example : scanText "\"\"\"\r\na \\\n  \\x\"".toList = none := by decide +kernel
example : scanText "\"\"\"\r\na\r\n\\  \n\n b\"\"\"\"\"".toList = some ("a\nb\"\"", []) := by
  decide +kernel

end SettingsFile

end ContentTables
