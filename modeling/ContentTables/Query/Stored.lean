import ContentTables.Json.Parser
import ContentTables.Json.Printer
import ContentTables.Schema.Table
import ContentTables.Text.Basic

/-!
# Stored values

A database column holds less than a value can say. Object and array columns hold the text of a
value and bool columns hold 0 or 1.

* `Json.isTruthy` : what a value means to a bool column;
* `Column.encode` : the stored form of a value; null is stored as it is, whatever the column, and a
  string in an object or array column is taken for a text already;
* `Column.decode` : the value of a stored form; a text that cannot be read stays a string;
* `TableSchema.decodeRow` : the same for the columns of a row; unknown columns pass through.
-/

namespace ContentTables

def Json.isTruthy : Json → Bool
  | .null => false
  | .bool b => b
  | .num n => !n.isZero
  | .str s => !(s == "" || s == "0" || sameIgnoringCase s "false")
  | .arr items => !items.isEmpty
  | .obj fields => !fields.isEmpty

namespace Column

/-- The text of a value, a string being one already. -/
def encodeJson : Json → Json
  | .str s => .str s
  | v => .str v.text

def encode (c : Column) (v : Json) : Json :=
  if v.isNull then v
  else
    match c.kind with
    | .object | .array => encodeJson v
    | .bool => .ofUInt64 (if v.isTruthy then 1 else 0)
    | _ => v

/-- The value of a text, and a text that has none as it is. -/
def decodeJson : Json → Json
  | .str s => (Json.parse? s).getD (.str s)
  | v => v

def decode (c : Column) (v : Json) : Json :=
  match c.kind with
  | .object | .array => decodeJson v
  | .bool => .bool v.isTruthy
  | _ => v

end Column

namespace TableSchema

def decodeRow (schema : TableSchema) (row : Row) : Row :=
  row.mapValues fun name v => ((schema.get? name).map (·.decode v)).getD v

def decodeRows (schema : TableSchema) (rows : List Row) : List Row :=
  rows.map schema.decodeRow

end TableSchema

end ContentTables
