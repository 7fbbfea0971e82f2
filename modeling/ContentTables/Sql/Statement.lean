import ContentTables.Json.Basic
import ContentTables.Sql.Quoted

/-!
# Statements

* `Statement` : a text with placeholders `?` and the parameters they stand for;
* `Statement.expand` : a placeholder whose parameter is an array becomes one placeholder for each
  element, and the array gives way to its elements. An empty array becomes `NULL`, so `IN (?)` over
  nothing accepts no row. Placeholders inside quotes are text; placeholders without a parameter and
  parameters without a placeholder stay as they are.
-/

namespace ContentTables

structure Statement where
  sql : String
  params : List Json := []
deriving Inhabited

/-- Texts with a comma and a space between them. -/
def commaSeparated (parts : List String) : String := ", ".intercalate parts

/-- As many placeholders as there are items. -/
def placeholders {α : Type} (items : List α) : String :=
  commaSeparated (items.map fun _ => "?")

namespace Statement

/-- What a placeholder becomes, and the parameters that take the place of its own. -/
def fill : Json → String × List Json
  | .arr [] => ("NULL", [])
  | .arr (v :: vs) => (placeholders (v :: vs), v :: vs)
  | v => ("?", [v])

/-- The expanded text and parameters of what a reader in some state has still to read. -/
def expandFrom : ScanState → List Char → List Json → List Char × List Json
  | _, [], params => ([], params)
  | state, c :: cs, params =>
    if state = .outside ∧ c = '?' then
      match params with
      | [] =>
        let (sql, bound) := expandFrom .outside cs []
        ('?' :: sql, bound)
      | p :: ps =>
        let (sql, bound) := expandFrom .outside cs ps
        ((fill p).1.toList ++ sql, (fill p).2 ++ bound)
    else
      let (sql, bound) := expandFrom (state.step c) cs params
      (c :: sql, bound)

/-- A statement without array parameters needs no scan. -/
def expand (s : Statement) : Statement :=
  if s.params.any Json.isArray then
    let (sql, params) := expandFrom .outside s.sql.toList s.params
    ⟨String.ofList sql, params⟩
  else s

end Statement

end ContentTables
