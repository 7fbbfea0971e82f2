import ContentTables.Json.Record

/-!
# Columns

* `ColumnKind` : what a column stores;
* `Column` : a column's definition; its name is the key it has in a schema;
* `Column.sameDefinition` : equality of definitions, defaults compared as values;
* `Column.json`, `Column.read?` : the recorded form, which leaves out flags that are off and options
  that are not set, and its reader;
* `Column.mustBeSupplied`, `Column.isAutoStamped` : what an insert does about a column that the row
  leaves out.
-/

namespace ContentTables

inductive ColumnKind where
  | int | bigint | string | enum | bool | timestamp | object | array
deriving DecidableEq, Inhabited

namespace ColumnKind

def name : ColumnKind → String
  | .int => "int"
  | .bigint => "bigint"
  | .string => "string"
  | .enum => "enum"
  | .bool => "bool"
  | .timestamp => "timestamp"
  | .object => "object"
  | .array => "array"

def all : List ColumnKind := [.int, .bigint, .string, .enum, .bool, .timestamp, .object, .array]

/-- Older records write `str` and `date`. -/
def ofName? (s : String) : Option ColumnKind :=
  if s = "str" then some .string
  else if s = "date" then some .timestamp
  else all.find? (·.name = s)

theorem ofName?_name (k : ColumnKind) : ofName? k.name = some k := by cases k <;> decide

def isInteger (k : ColumnKind) : Bool := k == .int || k == .bigint

/-- Object and array columns hold the text of a value. -/
def isJson (k : ColumnKind) : Bool := k == .object || k == .array

end ColumnKind

structure Column where
  kind : ColumnKind := .string
  length : Option UInt32 := none
  required : Bool := false
  unique : Bool := false
  primary : Bool := false
  autoIncrement : Bool := false
  default : Option Json := none
  index : Bool := false
  /-- The values of an enum column. -/
  values : List String := []
deriving Inhabited

namespace Column

/-! ## Ready-made columns -/

def string (length : UInt32) : Column := { kind := .string, length := some length }

def int (length : UInt32) : Column := { kind := .int, length := some length }

def bigint : Column := { kind := .bigint }

def bool : Column := { kind := .bool }

def object : Column := { kind := .object }

def array : Column := { kind := .array }

/-- An enum column that starts as one of its values. -/
def choice (values : List String) (default : String) : Column :=
  { kind := .enum, values, default := some (.str default) }

/-- A timestamp that the insert stamps when the row leaves it out. -/
def currentTimestamp : Column :=
  { kind := .timestamp, default := some (.str "CURRENT_TIMESTAMP") }

/-! ## Equality -/

def sameDefault : Option Json → Option Json → Bool
  | none, none => true
  | some v, some w => v.sameValue w
  | _, _ => false

def sameDefinition (c d : Column) : Bool :=
  c.kind == d.kind && c.length == d.length && c.required == d.required && c.unique == d.unique &&
    c.primary == d.primary && c.autoIncrement == d.autoIncrement &&
    sameDefault c.default d.default && c.index == d.index && c.values == d.values

/-! ## Recorded form -/

def fieldNames : List String :=
  ["type", "length", "required", "unique", "primary", "autoIncrement", "default", "index", "enum"]

/-- A flag is recorded only when it is on. -/
def flag (name : String) (on : Bool) : List (String × Json) :=
  if on then [(name, .bool true)] else []

def json (c : Column) : Json :=
  .obj (("type", .str c.kind.name) ::
    ((c.length.map fun n => ("length", Json.ofUInt64 n.toUInt64)).toList ++
      flag "required" c.required ++ flag "unique" c.unique ++ flag "primary" c.primary ++
      flag "autoIncrement" c.autoIncrement ++
      (c.default.map fun v => ("default", v)).toList ++ flag "index" c.index ++
      if c.values.isEmpty then [] else [("enum", .strings c.values)]))

def readKind? (d : Document) : Option ColumnKind := d.tag?.bind ColumnKind.ofName?

def read? (d : Document) : Option Column :=
  match d.record? fieldNames with
  | some [kind, length, required, unique, primary, autoIncrement, default, index, values] => do
    some {
      kind := ← Document.required readKind? kind
      length := ← Document.optional Document.word32? length
      required := ← Document.orElse false Document.bool? required
      unique := ← Document.orElse false Document.bool? unique
      primary := ← Document.orElse false Document.bool? primary
      autoIncrement := ← Document.orElse false Document.bool? autoIncrement
      default := ← Document.optional Document.value? default
      index := ← Document.orElse false Document.bool? index
      values := ← Document.orElse [] Document.texts? values }
  | _ => none

/-! ## Rows that leave the column out -/

/-- The database neither has a default for the column nor makes its value. -/
def mustBeSupplied (c : Column) : Bool :=
  c.required && c.default.isNone && !c.autoIncrement

def isAutoStamped (c : Column) : Bool :=
  c.kind == .timestamp && c.default.isSome

end Column

end ContentTables
