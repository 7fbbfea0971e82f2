import ContentTables.Error
import ContentTables.Query.Select

/-!
# Reading several tables

The first table of a join is its anchor; each later one is joined on the relation column of the
table before it.

* `JoinTable`, `JoinQuery` : the tables, each with its own columns and condition;
* `JoinQuery.statement` : the statement that reads them, which needs at least one table.
-/

namespace ContentTables

inductive JoinDirection where
  | left
  | right
deriving DecidableEq, Inhabited

def JoinDirection.sql : JoinDirection → String
  | .left => "LEFT JOIN"
  | .right => "RIGHT JOIN"

structure JoinTable where
  table : String
  /-- All columns of the table if `none`. -/
  columns : Option (List String) := none
  /-- The column compared with the one of the table before. -/
  relation : String
  condition : Condition := .empty
deriving Inhabited

namespace JoinTable

def physical (t : JoinTable) (naming : TableNaming) : String := naming.physical t.table

def selected (t : JoinTable) (naming : TableNaming) : List String :=
  match t.columns with
  | none => [quoteIdent (t.physical naming) ++ ".*"]
  | some names => names.map (qualified (some (t.physical naming)))

/-- The relation column behind the table's name. -/
def key (t : JoinTable) (naming : TableNaming) : String :=
  qualified (some (t.physical naming)) t.relation

def clause (t : JoinTable) (naming : TableNaming) : Clause :=
  t.condition.compile (some (t.physical naming))

end JoinTable

structure JoinQuery where
  direction : JoinDirection
  tables : List JoinTable
  /-- Pairs of a table and a column. -/
  groupBy : List (String × String) := []
  /-- A column of the anchor. -/
  orderBy : Option String := none
  order : Order := .ascending
  page : UInt32 := 1
  perPage : UInt32 := 0
deriving Inhabited

namespace JoinQuery

/-- The tables after one, each joined on the key of the one before. -/
def joinsFrom (direction : JoinDirection) (naming : TableNaming) (previous : JoinTable) :
    List JoinTable → List String
  | [] => []
  | t :: ts =>
    (direction.sql ++ " " ++ quoteIdent (t.physical naming) ++ " ON " ++ previous.key naming ++
      " = " ++ t.key naming) :: joinsFrom direction naming t ts

/-- The clauses of all tables, those that are empty left out, as one. -/
def joinedClause (clauses : List Clause) : Clause :=
  let nonempty := clauses.filter fun c => !c.isEmpty
  ⟨" AND ".intercalate (nonempty.map (·.sql)), nonempty.flatMap (·.params)⟩

def statement (q : JoinQuery) (naming : TableNaming) : Except StoreError Statement :=
  match q.tables with
  | [] => .error .joinNeedsTable
  | anchor :: others =>
    let sources := quoteIdent (anchor.physical naming) :: joinsFrom q.direction naming anchor others
    let clause := joinedClause (q.tables.map (·.clause naming))
    .ok {
      sql := "SELECT " ++ commaSeparated (q.tables.flatMap (·.selected naming)) ++ " FROM " ++
        " ".intercalate sources ++ clause.whereSql ++
        groupSql (q.groupBy.map fun (table, column) =>
          qualified (some (naming.physical table)) column) ++
        orderSql (q.orderBy.map (qualified (some (anchor.physical naming)))) q.order ++
        limitSql q.page q.perPage
      params := clause.params }

end JoinQuery

end ContentTables
