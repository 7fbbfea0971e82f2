import ContentTables.Error
import ContentTables.Json.Parser
import ContentTables.Json.Printer
import ContentTables.Schema.Column
import ContentTables.Text.Basic

/-!
# Table schemas

* `TableSchema` : column names and definitions, in the order in which a table is created;
* `TableSchema.sameContent` : the same columns with the same definitions, in any order;
* `SchemaFault`, `TableSchema.validate` : what a schema must satisfy before a table is made of it;
  of two faults the one listed first below is reported, and of two faulty columns the first;
* `TableSchema.json`, `TableSchema.read?` : the recorded form and its reader.
-/

namespace ContentTables

abbrev TableSchema := OrderedMap Column

inductive SchemaFault where
  | severalPrimaries (columns : List String)
  | blankName
  | autoIncrementWithoutKey (column : String)
  | enumWithoutValues (column : String)
deriving DecidableEq

def SchemaFault.message : SchemaFault → String
  | .severalPrimaries columns =>
    "only one primary column is allowed, found " ++ ", ".intercalate columns
  | .blankName => "column names must not be empty"
  | .autoIncrementWithoutKey column =>
    column ++ ": autoIncrement requires an integer primary column"
  | .enumWithoutValues column => column ++ ": enum columns need at least one value"

namespace TableSchema

def sameContent (s t : TableSchema) : Bool :=
  OrderedMap.sameContent Column.sameDefinition s t

/-- The names of the columns of which something holds, in order. -/
def namesWhere (s : TableSchema) (p : Column → Bool) : List String :=
  namesOf (s.entries.filter fun (_, c) => p c)

def indexedColumns (s : TableSchema) : List String := s.namesWhere (·.index)

def autoIncrementColumn? (s : TableSchema) : Option String :=
  (s.namesWhere (·.autoIncrement)).head?

/-! ## Validity -/

def columnFault? (name : String) (c : Column) : Option SchemaFault :=
  if isBlankText name then some .blankName
  else if c.autoIncrement && !(c.primary && c.kind.isInteger) then
    some (.autoIncrementWithoutKey name)
  else if c.kind == .enum && c.values.isEmpty then some (.enumWithoutValues name)
  else none

def fault? (s : TableSchema) : Option SchemaFault :=
  let primaries := s.namesWhere (·.primary)
  if 1 < primaries.length then some (.severalPrimaries primaries)
  else s.entries.findSome? fun (name, c) => columnFault? name c

def isValid (s : TableSchema) : Bool := s.fault?.isNone

def validate (s : TableSchema) : Except StoreError Unit :=
  match s.fault? with
  | some fault => .error (.invalidSchema fault.message)
  | none => .ok ()

/-! ## Recorded form -/

def json (s : TableSchema) : Json := .obj (s.entries.map fun (name, c) => (name, c.json))

def text (s : TableSchema) : String := s.json.text

def readColumns? : List (Option String × Document) → Option (List (String × Column))
  | [] => some []
  | (none, _) :: _ => none
  | (some name, d) :: fs => do
    let c ← Column.read? d
    let cs ← readColumns? fs
    some ((name, c) :: cs)

/-- Only an object is a schema. -/
def read? : Document → Option TableSchema
  | .obj fields => (readColumns? fields).map OrderedMap.ofList
  | _ => none

def parse? (s : String) : Option TableSchema := (Document.parse? s).bind read?

end TableSchema

end ContentTables
