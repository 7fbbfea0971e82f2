import ContentTables.ContentType.Tables
import ContentTables.Hook.Pipeline

/-!
# Composing the tables of a content type

Every derived schema passes through the filters of the hook `table_schema` before it is used.

* `TableContext`, `TableFilters` : what a filter sees beside the schema;
* `ComposedTable`, `TypeDescriptor.compose` : the tables in the order in which they are created.
-/

namespace ContentTables

structure TableContext where
  table : String
  role : TableRole
  descriptor : TypeDescriptor

abbrev TableFilters := FilterPipeline TableContext TableSchema

def tableSchemaHook : String := "table_schema"

structure ComposedTable where
  table : String
  role : TableRole
  schema : TableSchema

namespace TypeDescriptor

/-- The tables before any filter. -/
def derivedTables (d : TypeDescriptor) : List (TableRole × TableSchema) :=
  [(.content, contentTable d), (.metadata, metaTable)] ++
    if d.comments then [(.comments, commentsTable)] else []

def composeTable (filters : TableFilters) (d : TypeDescriptor) (role : TableRole)
    (schema : TableSchema) : Except StoreError ComposedTable := do
  let context : TableContext := ⟨role.tableName d.slug, role, d⟩
  let schema ← filters.apply context schema
  .ok ⟨context.table, role, schema⟩

def composeAll (filters : TableFilters) (d : TypeDescriptor) :
    List (TableRole × TableSchema) → Except StoreError (List ComposedTable)
  | [] => .ok []
  | (role, schema) :: rest => do
    let table ← d.composeTable filters role schema
    let tables ← d.composeAll filters rest
    .ok (table :: tables)

def compose (filters : TableFilters) (d : TypeDescriptor) :
    Except StoreError (List ComposedTable) :=
  if isBlankText d.slug then .error .slugRequired else d.composeAll filters d.derivedTables

end TypeDescriptor

end ContentTables
