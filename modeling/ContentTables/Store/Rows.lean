import ContentTables.Query.Join
import ContentTables.Query.Write
import ContentTables.Store.Records

/-!
# Rows of the store

* `Rows.get`, `Rows.getRow`, `Rows.getValue` : rows, the first row, or one value of it;
* `Rows.selectCached` : rows as before, kept in memory until the table is written;
* `Rows.insert`, `Rows.update`, `Rows.delete` : writes; each one that succeeds forgets the rows of
  its table. Writing no row at all is no error;
* `Rows.join`, `Rows.raw` : rows as the database gives them.
-/

namespace ContentTables

inductive InsertOutcome where
  | id (n : UInt64)
  /-- The table generates no id. -/
  | inserted
deriving DecidableEq

namespace Rows

/-! ## Reading -/

/-- A count written as digits, which a plus sign may precede. -/
def countOfText? (s : String) : Option UInt64 :=
  let digits :=
    match s.toList with
    | '+' :: rest => rest
    | cs => cs
  let n := Literal.digitsValue digits
  if digits.isEmpty || digits.any (!·.isDigit) || UInt64.size ≤ n then none else some (.ofNat n)

def countOfJson? : Json → Option UInt64
  | .num (.int n) => if 0 ≤ n.val then some (.ofNat n.val.toNat) else none
  | .str s => countOfText? s
  | _ => none

/-- The count in the answer to a count query, zero where there is none. -/
def countOf (rows : List Row) : UInt64 :=
  ((rows.head?.bind (·.get? "count")).bind countOfJson?).getD 0

def get (naming : TableNaming) (q : SelectQuery) : Operation QueryResult := do
  let rows ← Operation.fetch (q.statement naming)
  if q.selection = .count then pure (.count (countOf rows))
  else if rows.isEmpty then pure (.rows [])
  else
    let schema ← Records.get naming q.table
    pure (.rows (schema.decodeRows rows))

def getRow (naming : TableNaming) (q : SelectQuery) : Operation Row := do
  let result ← get naming { q with page := 1, perPage := 1 }
  match result.rowList.head? with
  | some row => pure row
  | none => throw (.rowNotFound q.table)

/-- The fallback stands for a missing row and for a missing column. -/
def getValue (naming : TableNaming) (q : SelectQuery) (column : String) (fallback : Json) :
    Operation Json :=
  tryCatch (do pure (((← getRow naming q).get? column).getD fallback)) fun
    | .rowNotFound _ => pure fallback
    | e => throw e

def selectCached (naming : TableNaming) (q : SelectQuery) : Operation QueryResult := do
  match ← Operation.ask (.cachedRows q.table q.cacheKey) with
  | some result => pure result
  | none =>
    let generation ← Operation.ask (.rowsGeneration q.table)
    let result ← get naming q
    let _ ← Operation.ask (.keepRows q.table q.cacheKey result generation)
    pure result

def join (naming : TableNaming) (q : JoinQuery) : Operation (List Row) := do
  Operation.fetch (← Operation.ofExcept (q.statement naming))

def raw (s : Statement) : Operation (List Row) := Operation.fetch s

/-! ## Writing -/

def forget (table : String) : Operation Unit := Operation.ask (.forgetRows table)

def insert (naming : TableNaming) (now table : String) (row : Row) : Operation InsertOutcome := do
  let schema ← Records.get naming table
  let prepared ← Operation.ofExcept (schema.prepareInsert now row)
  let written ← Operation.execute (insertStatement naming table prepared)
  forget table
  if schema.autoIncrementColumn?.isSome ∧ 0 < written.insertId then pure (.id written.insertId)
  else pure .inserted

/-- The number of rows affected. -/
def update (naming : TableNaming) (table : String) (row : Row) (condition : Condition) :
    Operation UInt64 := do
  let schema ← Records.get naming table
  let prepared ← Operation.ofExcept (schema.prepareUpdate row)
  let s ← Operation.ofExcept (updateStatement naming table prepared condition)
  let written ← Operation.execute s
  forget table
  pure written.affected

/-- The number of rows affected. -/
def delete (naming : TableNaming) (table : String) (condition : Condition)
    (offset limit : Option UInt64) : Operation UInt64 := do
  let written ← Operation.execute (deleteStatement naming table condition offset limit)
  forget table
  pure written.affected

end Rows

end ContentTables
