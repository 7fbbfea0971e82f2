import ContentTables.Condition.Basic
import ContentTables.Json.Sorted

/-!
# Canonical form of a condition

The order of the parts does not change what a condition accepts, so the canonical form lists the
parts in the order of their texts, at every level.

* `Predicate.canonical`, `Condition.canonical`.
-/

namespace ContentTables

def Operand.json : Operand → Json
  | .scalar v => v
  | .list vs => .arr vs
  | .range low high => .arr [low, high]

namespace Predicate

mutual

def canonical : Predicate → Json
  | .field column operator operand =>
    .obj [("field", .str column), ("op", .str operator.placeholder), ("value", operand.json)]
  | .group parts => .obj [("$group", .arr (Json.sortedByText (canonicals parts)))]
  | .all parts => .obj [("$and", .arr (Json.sortedByText (canonicals parts)))]
  | .any parts => .obj [("$or", .arr (Json.sortedByText (canonicals parts)))]

def canonicals : List Predicate → List Json
  | [] => []
  | p :: ps => p.canonical :: canonicals ps

end

end Predicate

def Condition.canonical (c : Condition) : Json :=
  .arr (Json.sortedByText (Predicate.canonicals c.predicates))

end ContentTables
