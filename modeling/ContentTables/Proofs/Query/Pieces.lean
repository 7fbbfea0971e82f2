import ContentTables.Proofs.Sql.Expanding
import ContentTables.Query.Join
import ContentTables.Query.Write
import Mathlib.Data.Option.Basic

/-!
# Statements on rows in pieces

* `RowStatement`, `RowStatement.statement` : the five ways to read and write rows, and the statement
  that each of them sends;
* `Predicate.pieces?`, `Condition.pieces` : a condition in pieces;
* `SelectQuery.pieces`, `JoinQuery.pieces`, `insertPieces`, `updatePieces`, `deletePieces` : the
  statements in pieces;
* `RowStatement.spelled_statement` : the texts are made of these pieces.
-/

namespace ContentTables

/-! ## Conditions -/

def qualifiedPieces (table : Option String) (column : String) : List Piece :=
  match table with
  | some t => [.name t, .plain ".", .name column]
  | none => [.name column]

/-- What follows the column, a space in front. -/
def Operator.pieces : Operator → List Piece
  | .equal => [.plain " = ", .mark]
  | .greater => [.plain " > ", .mark]
  | .greaterEqual => [.plain " >= ", .mark]
  | .less => [.plain " < ", .mark]
  | .lessEqual => [.plain " <= ", .mark]
  | .notEqual => [.plain " != ", .mark]
  | .isIn => [.plain " IN (", .mark, .plain ")"]
  | .notIn => [.plain " NOT IN (", .mark, .plain ")"]
  | .like => [.plain " LIKE ", .mark]
  | .notLike => [.plain " NOT LIKE ", .mark]
  | .between => [.plain " BETWEEN ", .mark, .plain " AND ", .mark]

namespace Predicate

def enclosed (ps : List Piece) : List Piece := .plain "(" :: (ps ++ [.plain ")"])

def joinedPieces (connective : String) (parts : List (List Piece)) : Option (List Piece) :=
  if parts.isEmpty then none else some (enclosed (separated connective parts))

def groupPieces? : List (List Piece) → Option (List Piece)
  | [] => none
  | [part] => some part
  | parts => some (enclosed (separated " AND " parts))

mutual

def pieces? (table : Option String) : Predicate → Option (List Piece)
  | .field column operator _ => some (qualifiedPieces table column ++ operator.pieces)
  | .group parts => groupPieces? (piecesOf table parts)
  | .all parts => joinedPieces " AND " (piecesOf table parts)
  | .any parts => joinedPieces " OR " (piecesOf table parts)

def piecesOf (table : Option String) : List Predicate → List (List Piece)
  | [] => []
  | p :: ps => (p.pieces? table).toList ++ piecesOf table ps

end

end Predicate

def Condition.pieces (c : Condition) (table : Option String) : List Piece :=
  separated " AND " (Predicate.piecesOf table c.predicates)

theorem spelled_qualified (table : Option String) (column : String) :
    Spelled (qualified table column) (qualifiedPieces table column) := by
  cases table with
  | none => exact .nameEnd column
  | some t =>
    have hdot : Spelled ("." ++ quoteIdent column) [.plain ".", .name column] :=
      .plain (by decide) (.nameEnd column)
    unfold qualified
    simp only [String.append_assoc]
    exact hdot.name t opens_plain

/-- One placeholder ends the text. -/
theorem spelled_markEnd {text : String} (h : calmText text = true) :
    Spelled (text ++ "?") [.plain text, .mark] := .plain h .markEnd

theorem spelled_operator (operator : Operator) :
    Spelled (" " ++ operator.placeholder) operator.pieces := by
  have hclosing : Spelled ")" [.plain ")"] := .plainEnd (by decide)
  have hand : Spelled (" AND " ++ "?") [.plain " AND ", .mark] := spelled_markEnd (by decide)
  cases operator with
  | isIn =>
    have hcalm : calmText " IN (" = true := by decide
    exact (Spelled.plain hcalm (.mark hclosing)).of_eq (by decide)
  | notIn =>
    have hcalm : calmText " NOT IN (" = true := by decide
    exact (Spelled.plain hcalm (.mark hclosing)).of_eq (by decide)
  | between =>
    have hcalm : calmText " BETWEEN " = true := by decide
    exact (Spelled.plain hcalm (.mark hand)).of_eq (by decide)
  | _ => exact (spelled_markEnd (by decide)).of_eq (by decide)

theorem opens_operator (operator : Operator) : Opens operator.pieces := by
  cases operator <;> exact opens_plain

namespace Predicate

theorem spelled_enclosed {sql : String} {ps : List Piece} (h : Spelled sql ps) :
    Spelled (parenthesized sql) (enclosed ps) := by
  have hclosing : Spelled ")" [.plain ")"] := .plainEnd (by decide)
  unfold parenthesized
  rw [String.append_assoc]
  exact .plain (by decide) (h.append hclosing opens_plain)

theorem spelled_joined {connective : String} (hconnective : calmText connective = true)
    {texts : List String} {pss : List (List Piece)} (h : List.Forall₂ Spelled texts pss) :
    Option.Rel Spelled (joined connective texts) (joinedPieces connective pss) := by
  unfold joined joinedPieces
  cases h with
  | nil => exact .none
  | cons htext hrest =>
    exact .some (spelled_enclosed (Spelled.separated hconnective (.cons htext hrest)))

theorem spelled_group {texts : List String} {pss : List (List Piece)}
    (h : List.Forall₂ Spelled texts pss) :
    Option.Rel Spelled (groupClause? texts) (groupPieces? pss) := by
  cases h with
  | nil => exact .none
  | cons htext hrest =>
    cases hrest with
    | nil => exact .some htext
    | cons hnext hothers =>
      have hconnective : calmText " AND " = true := by decide
      have hall := List.Forall₂.cons htext (.cons hnext hothers)
      exact .some (spelled_enclosed (Spelled.separated hconnective hall))

mutual

theorem spelled_clause? (table : Option String) :
    ∀ p : Predicate, Option.Rel Spelled (p.clause? table) (p.pieces? table)
  | .field column operator _ => by
    rw [clause?, pieces?, String.append_assoc]
    exact .some ((spelled_qualified table column).append (spelled_operator operator)
      (opens_operator operator))
  | .group parts => by
    rw [clause?, pieces?]
    exact spelled_group (spelled_clauses table parts)
  | .all parts => by
    rw [clause?, pieces?]
    exact spelled_joined (by decide) (spelled_clauses table parts)
  | .any parts => by
    rw [clause?, pieces?]
    exact spelled_joined (by decide) (spelled_clauses table parts)

theorem spelled_clauses (table : Option String) :
    ∀ ps : List Predicate, List.Forall₂ Spelled (clauses table ps) (piecesOf table ps)
  | [] => .nil
  | p :: ps => by
    have hothers := spelled_clauses table ps
    have hhere := spelled_clause? table p
    rw [clauses, piecesOf]
    revert hhere
    generalize p.clause? table = text
    generalize p.pieces? table = pieces
    rintro (hp | _)
    · exact .cons hp hothers
    · exact hothers

end

end Predicate

theorem Condition.spelled_compile (c : Condition) (table : Option String) :
    Spelled (c.compile table).sql (c.pieces table) :=
  Spelled.separated (by decide) (Predicate.spelled_clauses table c.predicates)

/-! ## Parts of statements -/

def wherePieces (ps : List Piece) : List Piece :=
  if ps.isEmpty then [] else .plain " WHERE " :: ps

def groupPieces (columns : List (List Piece)) : List Piece :=
  if columns.isEmpty then [] else .plain " GROUP BY " :: separated ", " columns

def orderPieces (column : Option (List Piece)) (order : Order) : List Piece :=
  match column with
  | some c => .plain " ORDER BY " :: (c ++ [.plain (" " ++ order.sql)])
  | none => []

/-- A limit has neither names nor placeholders in it. -/
def limitPieces (sql : String) : List Piece := if sql = "" then [] else [.plain sql]

theorem opens_where (ps : List Piece) : Opens (wherePieces ps) := by
  unfold wherePieces
  split
  · exact opens_nil
  · exact opens_plain

theorem opens_group (columns : List (List Piece)) : Opens (groupPieces columns) := by
  unfold groupPieces
  split
  · exact opens_nil
  · exact opens_plain

theorem opens_order (column : Option (List Piece)) (order : Order) :
    Opens (orderPieces column order) := by
  cases column with
  | none => exact opens_nil
  | some c => exact opens_plain

theorem opens_limit (sql : String) : Opens (limitPieces sql) := by
  unfold limitPieces
  split
  · exact opens_nil
  · exact opens_plain

theorem Clause.isEmpty_eq {c : Clause} {ps : List Piece} (h : Spelled c.sql ps) :
    c.isEmpty = ps.isEmpty := by
  rw [Bool.eq_iff_iff, List.isEmpty_iff, ← h.eq_empty_iff]
  exact beq_iff_eq

theorem spelled_where {c : Clause} {ps : List Piece} (h : Spelled c.sql ps) :
    Spelled c.whereSql (wherePieces ps) := by
  unfold Clause.whereSql wherePieces
  rw [Clause.isEmpty_eq h]
  split
  · exact .nil
  · exact .plain (by decide) h

theorem spelled_group {columns : List String} {pss : List (List Piece)}
    (h : List.Forall₂ Spelled columns pss) : Spelled (groupSql columns) (groupPieces pss) := by
  unfold groupSql groupPieces
  cases h with
  | nil => exact .nil
  | cons hfirst hrest =>
    exact .plain (by decide) (Spelled.separated (by decide) (.cons hfirst hrest))

theorem spelled_order {column : Option String} {pieces : Option (List Piece)}
    (h : Option.Rel Spelled column pieces) (order : Order) :
    Spelled (orderSql column order) (orderPieces pieces order) := by
  cases h with
  | none => exact .nil
  | @some c ps hcolumn =>
    have horder : Spelled (" " ++ order.sql) [.plain (" " ++ order.sql)] :=
      .plainEnd (by cases order <;> decide)
    unfold orderSql orderPieces
    simp only [String.append_assoc]
    exact .plain (by decide) (hcolumn.append horder opens_plain)

theorem spelled_limit {sql : String} (h : sql = "" ∨ calmText sql = true) :
    Spelled sql (limitPieces sql) := by
  unfold limitPieces
  split
  · rename_i hempty
    exact Spelled.nil.of_eq hempty
  · rename_i hne
    exact .plainEnd (h.resolve_left hne)

theorem calm_limitSql (page perPage : UInt32) :
    limitSql page perPage = "" ∨ calmText (limitSql page perPage) = true := by
  unfold limitSql
  split
  · exact Or.inl rfl
  · refine Or.inr (calmText_append (calmText_append (calmText_append ?_ ?_) ?_) ?_)
    · decide
    · exact calmText_toString _
    · decide
    · exact calmText_toString _

theorem calm_deleteLimitSql (offset limit : UInt64) :
    deleteLimitSql offset limit = "" ∨ calmText (deleteLimitSql offset limit) = true := by
  unfold deleteLimitSql
  split
  · exact Or.inl rfl
  · refine Or.inr ?_
    split
    · exact calmText_append (by decide) (calmText_toString _)
    · refine calmText_append (calmText_append (calmText_append ?_ ?_) ?_) ?_
      · decide
      · exact calmText_toString _
      · decide
      · exact calmText_toString _

/-! ## Reading -/

/-- What follows the condition of a query. -/
def endPieces (groups : List (List Piece)) (column : Option (List Piece)) (order : Order)
    (page perPage : UInt32) : List Piece :=
  groupPieces groups ++ (orderPieces column order ++ limitPieces (limitSql page perPage))

theorem opens_end (groups : List (List Piece)) (column : Option (List Piece)) (order : Order)
    (page perPage : UInt32) : Opens (endPieces groups column order page perPage) :=
  (opens_group groups).append ((opens_order column order).append (opens_limit _))

theorem spelled_end {columns : List String} {groups : List (List Piece)}
    (hgroups : List.Forall₂ Spelled columns groups) {column : Option String}
    {pieces : Option (List Piece)} (hcolumn : Option.Rel Spelled column pieces) (order : Order)
    (page perPage : UInt32) :
    Spelled (groupSql columns ++ (orderSql column order ++ limitSql page perPage))
      (endPieces groups pieces order page perPage) := by
  have hlimit := spelled_limit (calm_limitSql page perPage)
  refine (spelled_group hgroups).append ?_ ((opens_order pieces order).append (opens_limit _))
  exact (spelled_order hcolumn order).append hlimit (opens_limit _)

theorem spelled_optional {ι : Type} {text : ι → String} {pieces : ι → List Piece}
    (h : ∀ i, Spelled (text i) (pieces i)) (item : Option ι) :
    Option.Rel Spelled (item.map text) (item.map pieces) := by
  cases item with
  | none => exact .none
  | some i => exact .some (h i)

def Selection.pieces : Selection → List Piece
  | .all => [.plain "*"]
  | .columns names => separated ", " (names.map ([.name ·]))
  | .count => [.plain "COUNT(*) AS ", .name "count"]

theorem spelled_selection (selection : Selection) :
    Spelled selection.sql selection.pieces := by
  cases selection with
  | all => exact .plainEnd (by decide)
  | columns names => exact Spelled.separated (by decide) (spelled_each fun name _ => .nameEnd name)
  | count =>
    have hcalm : calmText "COUNT(*) AS " = true := by decide
    exact (Spelled.plain hcalm (.nameEnd "count")).of_eq (by decide)

namespace SelectQuery

def pieces (q : SelectQuery) (naming : TableNaming) : List Piece :=
  .plain "SELECT " :: (q.selection.pieces ++ .plain " FROM " :: .name (naming.physical q.table) ::
    (wherePieces (q.condition.pieces (some (naming.physical q.table))) ++
      endPieces (q.groupBy.map ([.name ·])) (q.orderBy.map ([.name ·])) q.order q.page q.perPage))

theorem spelled_statement (q : SelectQuery) (naming : TableNaming) :
    Spelled (q.statement naming).sql (q.pieces naming) := by
  have hend := spelled_end (spelled_each fun name (_ : name ∈ q.groupBy) => .nameEnd name)
    (spelled_optional Spelled.nameEnd q.orderBy) q.order q.page q.perPage
  have hcondition := spelled_where
    (q.condition.spelled_compile (some (naming.physical q.table)))
  have hrest := hcondition.append hend (opens_end _ _ _ _ _)
  have htable := hrest.name (naming.physical q.table) ((opens_where _).append (opens_end _ _ _ _ _))
  have hfrom : Spelled (" FROM " ++ _) _ := .plain (by decide) htable
  have hall := (spelled_selection q.selection).append hfrom opens_plain
  refine (Spelled.plain (by decide) hall).of_eq ?_
  delta statement
  simp only [String.append_assoc]

end SelectQuery

namespace JoinTable

variable (t : JoinTable) (naming : TableNaming)

def selectedPieces : List (List Piece) :=
  match t.columns with
  | none => [[.name (t.physical naming), .plain ".*"]]
  | some names => names.map (qualifiedPieces (some (t.physical naming)))

def keyPieces : List Piece := qualifiedPieces (some (t.physical naming)) t.relation

def conditionPieces : List Piece := t.condition.pieces (some (t.physical naming))

theorem spelled_selected :
    List.Forall₂ Spelled (t.selected naming) (t.selectedPieces naming) := by
  unfold selected selectedPieces
  cases t.columns with
  | none =>
    have hall : Spelled ".*" [.plain ".*"] := .plainEnd (by decide)
    exact .cons (hall.name _ opens_plain) .nil
  | some names => exact spelled_each fun name _ => spelled_qualified _ name

theorem spelled_key : Spelled (t.key naming) (t.keyPieces naming) := spelled_qualified _ _

theorem spelled_clause : Spelled (t.clause naming).sql (t.conditionPieces naming) :=
  t.condition.spelled_compile _

end JoinTable

namespace JoinQuery

def joinPieces (direction : JoinDirection) (naming : TableNaming) (previous t : JoinTable) :
    List Piece :=
  .plain (direction.sql ++ " ") :: .name (t.physical naming) :: .plain " ON " ::
    (previous.keyPieces naming ++ .plain " = " :: t.keyPieces naming)

def joinsPieces (direction : JoinDirection) (naming : TableNaming) (previous : JoinTable) :
    List JoinTable → List (List Piece)
  | [] => []
  | t :: ts => joinPieces direction naming previous t :: joinsPieces direction naming t ts

theorem spelled_joins (direction : JoinDirection) (naming : TableNaming) (previous : JoinTable)
    (ts : List JoinTable) : List.Forall₂ Spelled (joinsFrom direction naming previous ts)
      (joinsPieces direction naming previous ts) := by
  induction ts generalizing previous with
  | nil => exact .nil
  | cons t ts ih =>
    refine .cons ?_ (ih t)
    have hkey : Spelled (" = " ++ t.key naming) _ := .plain (by decide) (t.spelled_key naming)
    have hon : Spelled (" ON " ++ _) _ :=
      .plain (by decide) ((previous.spelled_key naming).append hkey opens_plain)
    have hdirection : calmText (direction.sql ++ " ") = true := by cases direction <;> decide
    refine (Spelled.plain hdirection (hon.name (t.physical naming) opens_plain)).of_eq ?_
    simp only [String.append_assoc]

/-- The conditions of all tables, those that compare nothing left out. -/
def conditionPieces (tables : List JoinTable) (naming : TableNaming) : List Piece :=
  separated " AND " ((tables.map (·.conditionPieces naming)).filter fun ps => !ps.isEmpty)

theorem spelled_joinedClause (tables : List JoinTable) (naming : TableNaming) :
    Spelled (joinedClause (tables.map (·.clause naming))).sql (conditionPieces tables naming) := by
  have hclauses : List.Forall₂ (fun (c : Clause) ps => Spelled c.sql ps)
      (tables.map (·.clause naming)) (tables.map (·.conditionPieces naming)) := by
    rw [List.forall₂_map_left_iff, List.forall₂_map_right_iff, List.forall₂_same]
    exact fun t _ => t.spelled_clause naming
  have hagree : ∀ (c : Clause) ps, Spelled c.sql ps →
      ((!c.isEmpty) = true ↔ (!ps.isEmpty) = true) :=
    fun c ps hc => by rw [Clause.isEmpty_eq hc]
  have hnonempty := List.rel_filter (fun c ps hc => hagree c ps hc) hclauses
  exact Spelled.separated (by decide) (List.forall₂_map_left_iff.mpr hnonempty)

def pieces (q : JoinQuery) (naming : TableNaming) : List Piece :=
  match q.tables with
  | [] => []
  | anchor :: others =>
    .plain "SELECT " :: (separated ", " (q.tables.flatMap (·.selectedPieces naming)) ++
      .plain " FROM " :: (separated " " ([.name (anchor.physical naming)] ::
        joinsPieces q.direction naming anchor others) ++
      (wherePieces (conditionPieces q.tables naming) ++
        endPieces (q.groupBy.map fun (table, column) =>
          qualifiedPieces (some (naming.physical table)) column)
          (q.orderBy.map (qualifiedPieces (some (anchor.physical naming)))) q.order q.page
          q.perPage)))

theorem spelled_statement {q : JoinQuery} {naming : TableNaming} {s : Statement}
    (h : q.statement naming = .ok s) : Spelled s.sql (q.pieces naming) := by
  unfold statement at h
  unfold pieces
  cases htables : q.tables with
  | nil =>
    rw [htables] at h
    exact nomatch h
  | cons anchor others =>
    rw [htables] at h
    obtain rfl := Except.ok.inj h
    have hgroups := spelled_each fun (key : String × String) (_ : key ∈ q.groupBy) =>
      spelled_qualified (some (naming.physical key.1)) key.2
    have hend := spelled_end hgroups
      (spelled_optional (spelled_qualified (some (anchor.physical naming))) q.orderBy)
      q.order q.page q.perPage
    have hcondition := spelled_where (spelled_joinedClause (anchor :: others) naming)
    have hblank : calmText " " = true := by decide
    have hcomma : calmText ", " = true := by decide
    have hsources := Spelled.separated hblank
      (.cons (.nameEnd (anchor.physical naming)) (spelled_joins q.direction naming anchor others))
    have hselected : List.Forall₂ Spelled ((anchor :: others).flatMap (·.selected naming))
        ((anchor :: others).flatMap (·.selectedPieces naming)) :=
      List.rel_flatMap (List.forall₂_same.mpr fun _ _ => rfl)
        fun t _ ht => ht ▸ t.spelled_selected naming
    have hrest := hsources.append (hcondition.append hend (opens_end _ _ _ _ _))
      ((opens_where _).append (opens_end _ _ _ _ _))
    have hfrom : Spelled (" FROM " ++ _) _ := .plain (by decide) hrest
    have hcolumns := Spelled.separated hcomma hselected
    refine (Spelled.plain (by decide) (hcolumns.append hfrom opens_plain)).of_eq ?_
    simp only [String.append_assoc]
    rfl

end JoinQuery

/-! ## Writing -/

def insertPieces (naming : TableNaming) (table : String) (row : Row) : List Piece :=
  .plain "INSERT INTO " :: .name (naming.physical table) :: .plain " (" ::
    (separated ", " (row.names.map ([.name ·])) ++ .plain ") VALUES (" ::
      (separated ", " (row.names.map fun _ => [.mark]) ++ [.plain ")"]))

theorem spelled_insert (naming : TableNaming) (table : String) (row : Row) :
    Spelled (insertStatement naming table row).sql (insertPieces naming table row) := by
  have hclosing : Spelled ")" [.plain ")"] := .plainEnd (by decide)
  have hvalues : Spelled (") VALUES (" ++ (placeholders row.names ++ ")")) _ :=
    .plain (by decide) ((spelled_placeholders row.names).append hclosing opens_plain)
  have hnames : Spelled (commaSeparated (row.names.map quoteIdent)) _ :=
    Spelled.separated (by decide) (spelled_each fun name _ => .nameEnd name)
  have hcolumns : Spelled (" (" ++ _) _ :=
    .plain (by decide) (hnames.append hvalues opens_plain)
  refine (Spelled.plain (by decide) (hcolumns.name (naming.physical table) opens_plain)).of_eq ?_
  delta insertStatement
  simp only [String.append_assoc]
  rfl

def updatePieces (naming : TableNaming) (table : String) (row : Row) (condition : Condition) :
    List Piece :=
  .plain "UPDATE " :: .name (naming.physical table) :: .plain " SET " ::
    (separated ", " (row.names.map ([.name ·, .plain " = ", .mark])) ++
      wherePieces (condition.pieces (some (naming.physical table))))

theorem spelled_assignments (names : List String) :
    Spelled (commaSeparated (names.map (quoteIdent · ++ " = ?")))
      (separated ", " (names.map ([.name ·, .plain " = ", .mark]))) := by
  have hassigned : ∀ name : String,
      Spelled (quoteIdent name ++ " = ?") [.name name, .plain " = ", .mark] := fun name =>
    ((spelled_markEnd (by decide : calmText " = " = true)).name name opens_plain).of_eq rfl
  exact Spelled.separated (by decide) (spelled_each fun name _ => hassigned name)

theorem spelled_update {naming : TableNaming} {table : String} {row : Row} {condition : Condition}
    {s : Statement} (h : updateStatement naming table row condition = .ok s) :
    Spelled s.sql (updatePieces naming table row condition) := by
  unfold updateStatement at h
  simp only at h
  split at h
  · exact nomatch h
  · obtain rfl := Except.ok.inj h
    have hwhere := spelled_where (condition.spelled_compile (some (naming.physical table)))
    have hset : Spelled (" SET " ++ _) _ :=
      .plain (by decide) ((spelled_assignments row.names).append hwhere (opens_where _))
    refine (Spelled.plain (by decide) (hset.name (naming.physical table) opens_plain)).of_eq ?_
    simp only [String.append_assoc]
    rfl

def deletePieces (naming : TableNaming) (table : String) (condition : Condition)
    (offset limit : Option UInt64) : List Piece :=
  .plain "DELETE FROM " :: .name (naming.physical table) ::
    (wherePieces (condition.pieces (some (naming.physical table))) ++
      limitPieces (deleteLimitSql (offset.getD 0) (limit.getD 0)))

theorem spelled_delete (naming : TableNaming) (table : String) (condition : Condition)
    (offset limit : Option UInt64) :
    Spelled (deleteStatement naming table condition offset limit).sql
      (deletePieces naming table condition offset limit) := by
  have hlimit := spelled_limit (calm_deleteLimitSql (offset.getD 0) (limit.getD 0))
  have hwhere := spelled_where (condition.spelled_compile (some (naming.physical table)))
  have hrest := hwhere.append hlimit (opens_limit _)
  have htable := hrest.name (naming.physical table) ((opens_where _).append (opens_limit _))
  refine (Spelled.plain (by decide) htable).of_eq ?_
  delta deleteStatement
  simp only [String.append_assoc]
  rfl

/-! ## All of them -/

/-- What is read from rows, or written to them. -/
inductive RowStatement where
  | select (q : SelectQuery)
  | join (q : JoinQuery)
  | insert (table : String) (row : Row)
  | update (table : String) (row : Row) (condition : Condition)
  | delete (table : String) (condition : Condition) (offset limit : Option UInt64)

namespace RowStatement

/-- A join without tables and an update without a condition send nothing. -/
def statement (naming : TableNaming) : RowStatement → Except StoreError Statement
  | .select q => .ok (q.statement naming)
  | .join q => q.statement naming
  | .insert table row => .ok (insertStatement naming table row)
  | .update table row condition => updateStatement naming table row condition
  | .delete table condition offset limit =>
    .ok (deleteStatement naming table condition offset limit)

def pieces (naming : TableNaming) : RowStatement → List Piece
  | .select q => q.pieces naming
  | .join q => q.pieces naming
  | .insert table row => insertPieces naming table row
  | .update table row condition => updatePieces naming table row condition
  | .delete table condition offset limit => deletePieces naming table condition offset limit

theorem spelled_statement {x : RowStatement} {naming : TableNaming} {s : Statement}
    (h : x.statement naming = .ok s) : Spelled s.sql (x.pieces naming) := by
  cases x with
  | select q =>
    obtain rfl := Except.ok.inj h
    exact q.spelled_statement naming
  | join q => exact JoinQuery.spelled_statement h
  | insert table row =>
    obtain rfl := Except.ok.inj h
    exact spelled_insert naming table row
  | update table row condition => exact spelled_update h
  | delete table condition offset limit =>
    obtain rfl := Except.ok.inj h
    exact spelled_delete naming table condition offset limit

end RowStatement

end ContentTables
