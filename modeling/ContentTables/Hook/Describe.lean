import ContentTables.Hook.Pipeline
import ContentTables.Text.Unseen

/-!
# Describing a hook

* `Pipeline.describe` : one line with the name of the hook and the names of its handlers, for people
  who look for the handler that misbehaves. Names are quoted, and what cannot be seen is escaped.
-/

namespace ContentTables

/-- A character between double quotes. -/
def describedChar (c : Char) : List Char :=
  if c = '"' then ['\\', '"']
  else if c = '\\' then ['\\', '\\']
  else if c = '\n' then ['\\', 'n']
  else if c = '\r' then ['\\', 'r']
  else if c = '\t' then ['\\', 't']
  else if c = '\x00' then ['\\', '0']
  else if isUnseen c then ['\\', 'u', '{'] ++ Nat.toDigits 16 c.toNat ++ ['}']
  else [c]

def describedText (s : String) : String :=
  String.ofList ('"' :: (s.toList.flatMap describedChar ++ ['"']))

def Pipeline.describe {β : Type} (p : Pipeline β) (kind : String) : String :=
  kind ++ " \x7b hook: " ++ describedText p.hook ++ ", handlers: [" ++
    ", ".intercalate (p.names.map describedText) ++ "] \x7d"

end ContentTables
