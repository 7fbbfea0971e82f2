import ContentTables.Cache.Key
import ContentTables.Condition.Canonical
import ContentTables.Sql.Clause
import ContentTables.Sql.Naming

/-!
# Reading one table

* `Selection`, `Order`, `SelectQuery` : what is read, in which order, and which page of it;
* `SelectQuery.statement` : the statement that reads it;
* `SelectQuery.cacheKey` : the key under which its answer is kept, the same for queries that differ
  only in the order of the parts of their conditions;
* `QueryResult` : rows, or the number of them.
-/

namespace ContentTables

inductive Selection where
  | all
  | columns (names : List String)
  | count
deriving DecidableEq, Inhabited

def Selection.sql : Selection → String
  | .all => "*"
  | .columns names => commaSeparated (names.map quoteIdent)
  | .count => "COUNT(*) AS \x60count\x60"

def Selection.json : Selection → Json
  | .all => .str "all"
  | .columns names => .obj [("list", .strings names)]
  | .count => .str "count"

inductive Order where
  | ascending
  | descending
deriving DecidableEq, Inhabited

def Order.sql : Order → String
  | .ascending => "ASC"
  | .descending => "DESC"

/-- ` GROUP BY` and the columns, already quoted. -/
def groupSql (columns : List String) : String :=
  if columns.isEmpty then "" else " GROUP BY " ++ commaSeparated columns

/-- ` ORDER BY` and the column, already quoted. -/
def orderSql (column : Option String) (order : Order) : String :=
  match column with
  | some c => " ORDER BY " ++ c ++ " " ++ order.sql
  | none => ""

/-- Pages count from 1, and page 0 is page 1. No page size means no limit. -/
def limitSql (page perPage : UInt32) : String :=
  if perPage = 0 then ""
  else
    " LIMIT " ++ toString ((max page.toNat 1 - 1) * perPage.toNat) ++ ", " ++ toString perPage.toNat

structure SelectQuery where
  table : String
  selection : Selection := .all
  condition : Condition := .empty
  groupBy : List String := []
  orderBy : Option String := none
  order : Order := .ascending
  page : UInt32 := 1
  perPage : UInt32 := 0
deriving Inhabited

namespace SelectQuery

def statement (q : SelectQuery) (naming : TableNaming) : Statement :=
  let physical := naming.physical q.table
  let clause := q.condition.compile (some physical)
  { sql := "SELECT " ++ q.selection.sql ++ " FROM " ++ quoteIdent physical ++ clause.whereSql ++
      groupSql (q.groupBy.map quoteIdent) ++ orderSql (q.orderBy.map quoteIdent) q.order ++
      limitSql q.page q.perPage
    params := clause.params }

/-- The query as a value, its condition in canonical form. -/
def json (q : SelectQuery) : Json :=
  .obj [("table", .str q.table), ("columns", q.selection.json),
    ("condition", q.condition.canonical), ("group_by", .strings q.groupBy),
    ("order_by", .ofString? q.orderBy), ("order", .str q.order.sql),
    ("page", .ofUInt64 q.page.toUInt64), ("per_page", .ofUInt64 q.perPage.toUInt64)]

def cacheKey (q : SelectQuery) : String := keyText q.json

end SelectQuery

inductive QueryResult where
  | rows (rows : List Row)
  | count (n : UInt64)
deriving Inhabited

namespace QueryResult

def rowList : QueryResult → List Row
  | .rows rs => rs
  | .count _ => []

def count? : QueryResult → Option UInt64
  | .rows _ => none
  | .count n => some n

def json : QueryResult → Json
  | .rows rs => .arr (rs.map Json.ofRow)
  | .count n => .ofUInt64 n

end QueryResult

end ContentTables
