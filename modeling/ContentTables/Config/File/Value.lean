import ContentTables.Config.File.Table
import ContentTables.Config.File.Text
import ContentTables.Config.File.Word

/-!
# Keys and values of a settings file

* `scanPath` : keys with points between them, fewer than `depthBound` of them;
* `scanValue` : a text, a word, a list between brackets, or a table between braces. Lists may go
  over several lines and end in a comma, tables may not. Lists and tables lie inside each other
  fewer than `depthBound` times.
-/

namespace ContentTables

namespace SettingsFile

open SettingText

def depthBound : Nat := 80

/-! ## Keys -/

def scanKey (cs : List Char) : Option (String × List Char) :=
  match cs with
  | '"' :: _ | '\'' :: _ => scanLine cs
  | _ => scanBareKey cs

/-- Up to `fuel` keys, with blanks around each of them. -/
def scanKeys : Nat → List Char → Option (List String × List Char)
  | 0, _ => none
  | fuel + 1, cs => do
    let (key, rest) ← scanKey (skipBlanks cs)
    match skipBlanks rest with
    | '.' :: rest =>
      let (keys, rest) ← scanKeys fuel rest
      some (key :: keys, rest)
    | rest => some ([key], rest)

def scanPath (cs : List Char) : Option (KeyPath × List Char) := do
  let (keys, rest) ← scanKeys (depthBound - 1) cs
  some (← KeyPath.ofList? keys, rest)

/-! ## Values -/

/-- The items of a list up to its closing bracket; `fuel` bounds their number. -/
def scanItems (scanItem : List Char → Option (Json × List Char)) :
    Nat → List Char → Option (List Json × List Char)
  | 0, _ => none
  | fuel + 1, cs =>
    match skipLines false cs with
    | ']' :: rest => some ([], rest)
    | cs => do
      let (v, rest) ← scanItem cs
      match skipLines false rest with
      | ',' :: rest =>
        let (vs, rest) ← scanItems scanItem fuel rest
        some (v :: vs, rest)
      | ']' :: rest => some ([v], rest)
      | _ => none

/-- A key path, an equals sign and a value, with blanks around each of them. -/
def scanSetting (scanItem : List Char → Option (Json × List Char)) (cs : List Char) :
    Option (KeyPath × Json × List Char) := do
  let (path, rest) ← scanPath cs
  let (v, rest) ← scanItem (skipBlanks (← behind? '=' rest))
  some (path, v, skipBlanks rest)

/-- Adds the settings up to the closing brace, at least one; `fuel` bounds their number. -/
def scanEntries (scanItem : List Char → Option (Json × List Char)) :
    Nat → Entries → List Char → Option (Entries × List Char)
  | 0, _, _ => none
  | fuel + 1, entries, cs => do
    let (path, v, rest) ← scanSetting scanItem cs
    let entries ← put? path v entries
    match rest with
    | ',' :: rest => scanEntries scanItem fuel entries rest
    | '\x7d' :: rest => some (entries, rest)
    | _ => none

/-- The rest of a table behind its opening brace. -/
def scanTable (scanItem : List Char → Option (Json × List Char)) (cs : List Char) :
    Option (Entries × List Char) :=
  match skipBlanks cs with
  | '\x7d' :: rest => some ([], rest)
  | cs => scanEntries scanItem cs.length [] cs

/-- A value in which lists and tables lie inside each other up to `levels` times. -/
def scanNested : Nat → List Char → Option (Json × List Char)
  | levels + 1, '[' :: rest =>
    (scanItems (scanNested levels) rest.length rest).map fun (vs, rest) => (.arr vs, rest)
  | levels + 1, '\x7b' :: rest =>
    (scanTable (scanNested levels) rest).map fun (entries, rest) => (jsonOf entries, rest)
  | _, cs =>
    match cs with
    | '"' :: _ | '\'' :: _ => (scanText cs).map fun (s, rest) => (.str s, rest)
    | _ => scanWord cs

def scanValue : List Char → Option (Json × List Char) := scanNested (depthBound - 1)

end SettingsFile

end ContentTables
