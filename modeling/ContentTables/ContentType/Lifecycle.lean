import ContentTables.ContentType.Compose
import ContentTables.Store.Migration

/-!
# The life of a content type

* `ContentType.install`, `ContentType.uninstall` : creates or drops all tables of a type;
* `ContentType.update` : moves the tables of an old type to the shape of a new one. Tables that the
  new type does not have are dropped, the others take its slug, and then all tables it has are
  reconciled.
-/

namespace ContentTables

namespace ContentType

def install (naming : TableNaming) (filters : TableFilters) (d : TypeDescriptor) :
    Operation Unit := do
  let tables ← Operation.ofExcept (d.compose filters)
  tables.forM fun t => Migration.createTable naming t.table t.schema

/-- Drops or renames one table of the old type. -/
def moveTable (naming : TableNaming) (wanted : List ComposedTable) (slug : String)
    (previous : ComposedTable) : Operation Unit :=
  let target := previous.role.tableName slug
  if !(wanted.any (·.role == previous.role)) then Migration.dropTable naming previous.table
  else if target ≠ previous.table then Migration.renameTable naming previous.table target
  else pure ()

def update (naming : TableNaming) (filters : TableFilters) (new old : TypeDescriptor) :
    Operation Unit := do
  let wanted ← Operation.ofExcept (new.compose filters)
  let existing ← Operation.ofExcept (old.compose filters)
  existing.forM (moveTable naming wanted new.slug)
  wanted.forM fun t => do
    let _ ← Migration.reconcile naming t.table t.schema

def uninstall (naming : TableNaming) (filters : TableFilters) (d : TypeDescriptor) :
    Operation Unit := do
  let tables ← Operation.ofExcept (d.compose filters)
  tables.forM fun t => Migration.dropTable naming t.table

end ContentType

end ContentTables
