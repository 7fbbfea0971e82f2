import ContentTables.Store.Migration

/-!
# Core tables

* `coreTables` : the tables that every store has, in the order in which they are installed;
* `CoreTables.install` : checks the connection, creates the metadata table, and brings every core
  table to its shape. It can run on every start.
-/

namespace ContentTables

def propertiesTable : TableSchema := .ofList [
  ("name", { Column.string 200 with required := true, primary := true }),
  ("value", .object)]

def routesTable : TableSchema := .ofList [
  ("route", { Column.string 255 with primary := true }),
  ("args", .object)]

def usersTable : TableSchema := .ofList [
  ("ID", { Column.int 20 with
    autoIncrement := true, primary := true, required := true, index := true }),
  ("display", { Column.string 60 with required := true }),
  ("email", { Column.string 100 with required := true, index := true }),
  ("pass", { Column.string 255 with required := true }),
  ("group", { Column.string 60 with required := true }),
  ("registered", .currentTimestamp)]

def contentTypesTable : TableSchema := .ofList [
  ("name", { Column.string 60 with required := true, index := true }),
  ("slug", { Column.string 100 with required := true, unique := true }),
  ("type", .choice ["content", "group"] "content"),
  ("status", .choice ["active", "inactive", "builtin"] "active"),
  ("hierarchical", .bool),
  ("archive", .bool),
  ("page", .bool),
  ("comments", .bool),
  ("rest", .bool),
  ("archiveTitle", .string 160),
  ("archiveDescription", .string 255),
  ("archiveSlug", { Column.string 60 with required := true }),
  ("itemsPerPage", { Column.int 2 with default := some (.ofUInt64 50) }),
  ("fields", .object),
  ("parents", .array)]

def coreTables : List (String × TableSchema) :=
  [("properties", propertiesTable), ("routes", routesTable), ("users", usersTable),
    ("content_types", contentTypesTable)]

namespace CoreTables

/-- The statement that any live connection answers. -/
def ping : Statement := { sql := "SELECT 1" }

def install (naming : TableNaming) : Operation Unit := do
  let _ ← Operation.fetch ping
  Records.createMetadataTable naming
  coreTables.forM fun (table, schema) => do
    let _ ← Migration.reconcile naming table schema

end CoreTables

end ContentTables
