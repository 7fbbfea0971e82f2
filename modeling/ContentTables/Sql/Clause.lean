import ContentTables.Condition.Basic
import ContentTables.Sql.Statement

/-!
# Conditions in statements

* `Clause` : the text behind `WHERE` and its parameters in the order of the placeholders;
* `Predicate.clause?`, `Predicate.params` : both for one predicate. A combination without any
  comparison in it has no text;
* `Condition.compile` : the clause of a condition, empty when there is nothing to compare.
-/

namespace ContentTables

structure Clause where
  sql : String
  params : List Json
deriving Inhabited

namespace Clause

def isEmpty (c : Clause) : Bool := c.sql == ""

/-- The clause behind its keyword, or nothing. -/
def whereSql (c : Clause) : String := if c.isEmpty then "" else " WHERE " ++ c.sql

def statement (c : Clause) : Statement := ⟨c.sql, c.params⟩

end Clause

namespace Predicate

def parenthesized (sql : String) : String := "(" ++ sql ++ ")"

/-- One text for several parts. -/
def joined (connective : String) (parts : List String) : Option String :=
  if parts.isEmpty then none else some (parenthesized (connective.intercalate parts))

/-- A group of one part needs no parentheses. -/
def groupClause? : List String → Option String
  | [] => none
  | [part] => some part
  | parts => some (parenthesized (" AND ".intercalate parts))

mutual

def clause? (table : Option String) : Predicate → Option String
  | .field column operator _ => some (qualified table column ++ " " ++ operator.placeholder)
  | .group parts => groupClause? (clauses table parts)
  | .all parts => joined " AND " (clauses table parts)
  | .any parts => joined " OR " (clauses table parts)

def clauses (table : Option String) : List Predicate → List String
  | [] => []
  | p :: ps => (p.clause? table).toList ++ clauses table ps

end

mutual

def params : Predicate → List Json
  | .field _ _ operand => operand.params
  | .group parts => paramsOf parts
  | .all parts => paramsOf parts
  | .any parts => paramsOf parts

def paramsOf : List Predicate → List Json
  | [] => []
  | p :: ps => p.params ++ paramsOf ps

end

end Predicate

def Condition.compile (c : Condition) (table : Option String) : Clause :=
  ⟨" AND ".intercalate (Predicate.clauses table c.predicates), Predicate.paramsOf c.predicates⟩

end ContentTables
