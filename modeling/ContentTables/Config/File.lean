import ContentTables.Config.File.Value

/-!
# Settings files

A settings file holds settings, `key = value`, one after the other. A header `[table]` says which
table the settings below it belong to, a header `[[table]]` starts the next table of a list.

* `SettingsFile.scanSettings` : the settings of a file, line by line;
* `parseSettings?` : its settings as a value. No table and no key may be given twice.
-/

namespace ContentTables

namespace SettingsFile

/-- The table that a header names, whether it is the next one of a list, and the lines below. -/
def scanHeader : List Char → Option (KeyPath × Bool × List Char)
  | '[' :: '[' :: rest => do
    let (path, rest) ← scanPath rest
    let rest ← behind? ']' (← behind? ']' rest)
    some (path, true, ← endLine? rest)
  | '[' :: rest => do
    let (path, rest) ← scanPath rest
    some (path, false, ← endLine? (← behind? ']' rest))
  | _ => none

/-- Adds the settings of all lines to the entries of the file, where `current` leads to the table of
the last header; `fuel` bounds the number of headers and settings. -/
def scanSettings : Nat → List String → Entries → List Char → Option Entries
  | 0, _, _, _ => none
  | fuel + 1, current, entries, cs =>
    match skipLines false cs with
    | [] => some entries
    | '[' :: rest => do
      let (path, inList, rest) ← scanHeader ('[' :: rest)
      let entries ← if inList then extend? path entries else open? path entries
      scanSettings fuel path.keys entries rest
    | cs => do
      let (path, v, rest) ← scanSetting scanValue cs
      let entries ← within? .passed (fun _ inner => put? path v inner) current .stated entries
      scanSettings fuel current entries (← endLine? rest)

end SettingsFile

/-- A file may start with a byte order mark. -/
def parseSettings? (text : String) : Option Json :=
  let cs :=
    match text.toList with
    | '\ufeff' :: rest => rest
    | cs => cs
  (SettingsFile.scanSettings (cs.length + 1) [] [] cs).map SettingsFile.jsonOf

end ContentTables
