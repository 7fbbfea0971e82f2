import ContentTables.Schema.Table

/-!
# Differences between schemas

* `SchemaDiff` : columns to add, columns to change and names to drop;
* `TableSchema.diff` : what turns a stored schema into a desired one. Columns are added and changed
  in the desired order and dropped in the stored one;
* `TableSchema.merge` : a schema after a diff. An added column goes last, or replaces one of its
  name; a changed column is replaced where it is there; dropped columns go.
-/

namespace ContentTables

structure SchemaDiff where
  added : TableSchema
  changed : TableSchema
  dropped : List String
deriving Inhabited

namespace SchemaDiff

def isEmpty (d : SchemaDiff) : Bool :=
  d.added.isEmpty && d.changed.isEmpty && d.dropped.isEmpty

def json (d : SchemaDiff) : Json :=
  .obj [("added", d.added.json), ("changed", d.changed.json), ("dropped", .strings d.dropped)]

end SchemaDiff

namespace TableSchema

def diff (stored desired : TableSchema) : SchemaDiff where
  added := desired.filter fun name _ => !stored.contains name
  changed := desired.filter fun name c =>
    (stored.get? name).any fun current => !current.sameDefinition c
  dropped := stored.names.filter fun name => !desired.contains name

def merge (stored : TableSchema) (d : SchemaDiff) : TableSchema :=
  ((stored.insertAll d.added.entries).replaceAll d.changed.entries).eraseAll d.dropped

end TableSchema

end ContentTables
