import ContentTables.Query.Stored
import ContentTables.Sql.Clause
import ContentTables.Sql.Naming

/-!
# Writing rows

* `TableSchema.prepareInsert` : the row to insert, in schema order. A supplied value that is not
  null is encoded; otherwise a column that must be supplied is an error, a stamped column takes the
  current time, a supplied null stays, and an absent column is left to the database;
* `TableSchema.prepareUpdate` : the known columns of the row, encoded, at least one of them;
* `insertStatement`, `updateStatement`, `deleteStatement` : the statements. An update without a
  condition is refused rather than made to every row.
-/

namespace ContentTables

namespace TableSchema

/-- What an insert does with one column: the entry it adds, if any. -/
def insertEntry (now : String) (row : Row) (name : String) (c : Column) :
    Except StoreError (List (String × Json)) :=
  match row.get? name with
  | some v =>
    if !v.isNull then .ok [(name, c.encode v)]
    else if c.mustBeSupplied then .error (.columnRequired name)
    else if c.isAutoStamped then .ok [(name, .str now)]
    else .ok [(name, .null)]
  | none =>
    if c.mustBeSupplied then .error (.columnRequired name)
    else if c.isAutoStamped then .ok [(name, .str now)]
    else .ok []

def insertEntries (now : String) (row : Row) :
    List (String × Column) → Except StoreError (List (String × Json))
  | [] => .ok []
  | (name, c) :: rest => do
    let here ← insertEntry now row name c
    let others ← insertEntries now row rest
    .ok (here ++ others)

def prepareInsert (schema : TableSchema) (now : String) (row : Row) : Except StoreError Row :=
  (insertEntries now row schema.entries).map OrderedMap.ofList

def updateEntries (schema : TableSchema) (row : Row) : List (String × Json) :=
  row.entries.filterMap fun (name, v) => (schema.get? name).map fun c => (name, c.encode v)

def prepareUpdate (schema : TableSchema) (row : Row) : Except StoreError Row :=
  let entries := schema.updateEntries row
  if entries.isEmpty then .error .noKnownColumns else .ok (.ofList entries)

end TableSchema

def insertStatement (naming : TableNaming) (table : String) (row : Row) : Statement where
  sql := "INSERT INTO " ++ naming.quoted table ++ " (" ++
    commaSeparated (row.names.map quoteIdent) ++ ") VALUES (" ++ placeholders row.names ++ ")"
  params := row.entries.map Prod.snd

def updateStatement (naming : TableNaming) (table : String) (row : Row) (condition : Condition) :
    Except StoreError Statement :=
  let clause := condition.compile (some (naming.physical table))
  if clause.isEmpty then .error .updateNeedsCondition
  else
    .ok {
      sql := "UPDATE " ++ naming.quoted table ++ " SET " ++
        commaSeparated (row.names.map (quoteIdent · ++ " = ?")) ++ clause.whereSql
      params := row.entries.map Prod.snd ++ clause.params }

/-- No limit deletes every match, and an offset counts only with a limit. -/
def deleteLimitSql (offset limit : UInt64) : String :=
  if limit = 0 then ""
  else if offset = 0 then " LIMIT " ++ toString limit.toNat
  else " LIMIT " ++ toString offset.toNat ++ ", " ++ toString limit.toNat

def deleteStatement (naming : TableNaming) (table : String) (condition : Condition)
    (offset limit : Option UInt64) : Statement :=
  let clause := condition.compile (some (naming.physical table))
  { sql := "DELETE FROM " ++ naming.quoted table ++ clause.whereSql ++
      deleteLimitSql (offset.getD 0) (limit.getD 0)
    params := clause.params }

end ContentTables
