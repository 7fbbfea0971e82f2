import ContentTables.Json.Parser
import ContentTables.Sql.Definition
import ContentTables.Sql.Naming
import ContentTables.Store.Program

/-!
# Schema records

The schema of each table is recorded as text in one row of the metadata table. Reads go through the
cache. A write forgets the keys it concerns before and after it touches the record, so a read that
overlaps the write cannot leave the old schema in the cache.

* `Records.find?`, `Records.get` : the recorded schema of a table;
* `Records.put`, `Records.replace`, `Records.drop` : new records, changed ones (which may change
  the table's name), and removed ones;
* `Records.list` : the names of all recorded tables.
-/

namespace ContentTables

namespace Records

/-! ## Statements -/

def selectSchema (naming : TableNaming) (table : String) : Statement where
  sql := "SELECT \x60columns\x60 FROM " ++ naming.metadataTable ++
    " WHERE \x60table\x60 = ? LIMIT 1"
  params := [.str table]

def insertRecord (naming : TableNaming) (table text : String) : Statement where
  sql := "INSERT INTO " ++ naming.metadataTable ++ " (\x60table\x60, \x60columns\x60) VALUES (?, ?)"
  params := [.str table, .str text]

def updateRecord (naming : TableNaming) (table text key : String) : Statement where
  sql := "UPDATE " ++ naming.metadataTable ++
    " SET \x60table\x60 = ?, \x60columns\x60 = ? WHERE \x60table\x60 = ?"
  params := [.str table, .str text, .str key]

def deleteRecord (naming : TableNaming) (table : String) : Statement where
  sql := "DELETE FROM " ++ naming.metadataTable ++ " WHERE \x60table\x60 = ?"
  params := [.str table]

def selectTables (naming : TableNaming) : Statement where
  sql := "SELECT \x60table\x60 FROM " ++ naming.metadataTable ++ " ORDER BY \x60table\x60"

/-! ## Reading -/

/-- The schema in a record. A record without columns is the empty schema. -/
def decode (record : Row) : Except StoreError TableSchema :=
  match record.get? "columns" with
  | some (.str text) => (TableSchema.parse? text).elim (.error .badForm) .ok
  | some .null | none => .ok ∅
  | some v => (TableSchema.read? v.document).elim (.error .badForm) .ok

/-- The record that holds a schema. -/
def encode (schema : TableSchema) : Row := .ofList [("columns", .str schema.text)]

def find? (naming : TableNaming) (table : String) : Operation (Option TableSchema) := do
  match ← Operation.ask (.cachedSchema table) with
  | some schema => pure (some schema)
  | none =>
    let generation ← Operation.ask .schemaGeneration
    match (← Operation.fetch (selectSchema naming table)).head? with
    | none => pure none
    | some record =>
      let schema ← Operation.ofExcept (decode record)
      let _ ← Operation.ask (.keepSchema table schema generation)
      pure (some schema)

def get (naming : TableNaming) (table : String) : Operation TableSchema := do
  match ← find? naming table with
  | some schema => pure schema
  | none => throw (.tableNotFound table)

/-- The names in a list of rows; a row without a name has none. -/
def tableNames (rows : List Row) : List String :=
  rows.filterMap fun row => (row.get? "table").bind Json.str?

def list (naming : TableNaming) : Operation (List String) := do
  pure (tableNames (← Operation.fetch (selectTables naming)))

/-! ## Writing -/

def forget (table : String) : Operation Unit := Operation.ask (.forgetSchema table)

def put (naming : TableNaming) (table : String) (schema : TableSchema) : Operation Unit := do
  forget table
  let _ ← Operation.execute (insertRecord naming table schema.text)
  forget table

/-- Replaces the record of `key` by one of `table`. -/
def replace (naming : TableNaming) (key table : String) (schema : TableSchema) :
    Operation Unit := do
  forget key
  forget table
  let _ ← Operation.execute (updateRecord naming table schema.text key)
  forget key
  forget table

def drop (naming : TableNaming) (table : String) : Operation Unit := do
  forget table
  let _ ← Operation.execute (deleteRecord naming table)
  forget table

/-- Creates the metadata table where it is missing. -/
def createMetadataTable (naming : TableNaming) : Operation Unit := do
  let _ ← Operation.execute { sql := Definition.createMetadataTable naming }

end Records

end ContentTables
