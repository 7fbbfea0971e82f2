import ContentTables.Schema.Diff
import ContentTables.Sql.Naming
import ContentTables.Sql.Statement
import ContentTables.Text.Basic

/-!
# Statements that define tables

* `columnClause` : a column as it stands in a statement: name, storage, then what was asked of it;
* `createTable` : the columns in schema order, then one index over all indexed columns;
* `alterTable?` : one statement for a whole diff, none when it has nothing to do. A column is
  changed or dropped only if the stored schema has it;
* `dropIndexes` : one statement for each dropped column that the stored schema indexes;
* `renameTable`, `dropTable`, `createMetadataTable`.
-/

namespace ContentTables

namespace Definition

/-! ## Columns -/

/-- The longest text that a column holds without becoming a long one. -/
def shortTextLimit : UInt32 := 255

def currentTimestamp : String := "CURRENT_TIMESTAMP"

def sized (storage : String) (length : UInt32) : String :=
  storage ++ "(" ++ toString length.toNat ++ ")"

/-- A generated key is stored wide, whatever integer kind it has. -/
def storage (c : Column) : String :=
  match c.kind with
  | .int =>
    if c.autoIncrement then sized "BIGINT" (c.length.getD 20) else sized "INT" (c.length.getD 1)
  | .bigint => sized "BIGINT" (c.length.getD 20)
  | .string =>
    let length := c.length.getD shortTextLimit
    if shortTextLimit < length then "LONGTEXT" else sized "VARCHAR" length
  | .object | .array => "LONGTEXT"
  | .enum => "ENUM(" ++ commaSeparated (c.values.map quoteLiteral) ++ ")"
  | .bool => "SMALLINT(1)"
  | .timestamp => "TIMESTAMP"

/-- The number that a bool column starts with. -/
def boolDefault : Option Json → String
  | some (.bool true) => "1"
  | some (.num n) => n.text
  | some (.str s) => if s = "1" ∨ sameIgnoringCase s "true" then "1" else "0"
  | _ => "0"

/-- The default of a column that is not bool: the current time is a keyword, all else is quoted. -/
def valueDefault : Json → Option String
  | .null => none
  | .str s =>
    some (if sameIgnoringCase s currentTimestamp then currentTimestamp else quoteLiteral s)
  | .bool b => some (quoteLiteral (if b then "1" else "0"))
  | v => some (quoteLiteral v.text)

/-- A bool column always has a default. -/
def default? (c : Column) : Option String :=
  if c.kind = .bool then some (boolDefault c.default) else c.default.bind valueDefault

def columnClause (name : String) (c : Column) : String :=
  " ".intercalate
    ([quoteIdent name, storage c] ++
      (if c.required then ["NOT NULL"] else []) ++
      (if c.unique then ["UNIQUE"] else []) ++
      (if c.primary then ["PRIMARY KEY"] else []) ++
      (if c.autoIncrement then ["AUTO_INCREMENT"] else []) ++
      ((default? c).map ("DEFAULT " ++ ·)).toList)

/-! ## Tables -/

def indexClause (columns : List String) : List String :=
  if columns.isEmpty then [] else ["INDEX (" ++ commaSeparated (columns.map quoteIdent) ++ ")"]

/-- The parts between the parentheses of a new table. -/
def createClauses (schema : TableSchema) : List String :=
  (schema.entries.map fun (name, c) => columnClause name c) ++ indexClause schema.indexedColumns

def createTable (naming : TableNaming) (table : String) (schema : TableSchema) : String :=
  "CREATE TABLE IF NOT EXISTS " ++ naming.quoted table ++ " (" ++
    commaSeparated (createClauses schema) ++ ") " ++ naming.tableOptions

/-- One step of altering a table. -/
inductive Alteration where
  | add (name : String) (column : Column)
  | change (name : String) (column : Column)
  | drop (name : String)

def Alteration.sql : Alteration → String
  | .add name c => "ADD COLUMN " ++ columnClause name c
  | .change name c => "CHANGE COLUMN " ++ quoteIdent name ++ " " ++ columnClause name c
  | .drop name => "DROP COLUMN " ++ quoteIdent name

def alterations (stored : TableSchema) (diff : SchemaDiff) : List Alteration :=
  (diff.added.entries.map fun (name, c) => .add name c) ++
    ((diff.changed.filter fun name _ => stored.contains name).entries.map fun (name, c) =>
      .change name c) ++
    (diff.dropped.filter stored.contains).map .drop

def alterTable? (naming : TableNaming) (table : String) (stored : TableSchema)
    (diff : SchemaDiff) : Option String :=
  let steps := alterations stored diff
  if steps.isEmpty then none
  else some ("ALTER TABLE " ++ naming.quoted table ++ " " ++ commaSeparated (steps.map (·.sql)))

def dropIndexes (naming : TableNaming) (table : String) (stored : TableSchema)
    (dropped : List String) : List String :=
  (dropped.filter fun name => (stored.get? name).any (·.index)).map fun name =>
    "DROP INDEX " ++ quoteIdent name ++ " ON " ++ naming.quoted table

def renameTable (naming : TableNaming) (source target : String) : String :=
  "ALTER TABLE " ++ naming.quoted source ++ " RENAME TO " ++ naming.quoted target

def dropTable (naming : TableNaming) (table : String) : String :=
  "DROP TABLE " ++ naming.quoted table

def createMetadataTable (naming : TableNaming) : String :=
  "CREATE TABLE IF NOT EXISTS " ++ naming.metadataTable ++
    " (\x60table\x60 VARCHAR(100) NOT NULL PRIMARY KEY, \x60columns\x60 LONGTEXT) " ++
    naming.tableOptions

end Definition

end ContentTables
