import ContentTables.Store.Records

/-!
# Migrations

Each migration changes the table first and its record second, in two statements. Once both are done
it forgets the rows of the tables concerned and announces what happened.

* `Migration.createTable`, `Migration.updateTable`, `Migration.renameTable`, `Migration.dropTable`;
* `Migration.reconcile` : brings a table to a desired schema, whatever its record says now.
-/

namespace ContentTables

inductive ReconcileOutcome where
  | created
  | altered
  | unchanged
deriving DecidableEq

namespace Migration

def finish (event : MigrationEvent) : Operation Unit := do
  event.tables.forM fun table => Operation.ask (.forgetRows table)
  Operation.ask (.announce event)

def define (sql : String) : Operation Unit := do
  let _ ← Operation.execute { sql }

/-- A definition whose failure does not matter. -/
def tryDefine (sql : String) : Operation Unit := do
  let _ ← Operation.ask (.execute { sql })

def createTable (naming : TableNaming) (table : String) (schema : TableSchema) :
    Operation Unit := do
  Operation.ofExcept schema.validate
  define (Definition.createTable naming table schema)
  Records.put naming table schema
  finish (.created table)

/-- An index that cannot be dropped is left. -/
def applyDiff (naming : TableNaming) (table : String) (stored : TableSchema) (diff : SchemaDiff) :
    Operation Unit := do
  let merged := stored.merge diff
  Operation.ofExcept merged.validate
  (Definition.dropIndexes naming table stored diff.dropped).forM tryDefine
  match Definition.alterTable? naming table stored diff with
  | some sql => define sql
  | none => pure ()
  Records.replace naming table table merged
  finish (.altered table diff)

def reconcile (naming : TableNaming) (table : String) (desired : TableSchema) :
    Operation ReconcileOutcome := do
  Operation.ofExcept desired.validate
  match ← Records.find? naming table with
  | none =>
    createTable naming table desired
    pure .created
  | some stored =>
    let diff := stored.diff desired
    if diff.isEmpty then pure .unchanged
    else
      applyDiff naming table stored diff
      pure .altered

def updateTable (naming : TableNaming) (table : String) (diff : SchemaDiff) : Operation Unit := do
  applyDiff naming table (← Records.get naming table) diff

def renameTable (naming : TableNaming) (source target : String) : Operation Unit := do
  let schema ← Records.get naming source
  define (Definition.renameTable naming source target)
  Records.replace naming source target schema
  finish (.renamed source target)

def dropTable (naming : TableNaming) (table : String) : Operation Unit := do
  define (Definition.dropTable naming table)
  Records.drop naming table
  finish (.dropped table)

end Migration

end ContentTables
