import ContentTables.Proofs.Query.Pieces
import ContentTables.Proofs.Sql.QuotedTokens

/-!
# Names and values in statements on rows

Names come from outside, and so do values. A name can do nothing in a statement but be a name, and
values are not in it at all.

* `RowStatement.names` : the names of tables and columns that a statement is to have, in order;
* `RowStatement.shape` : all else that a statement depends on;
* `names_pieces`, `blank_pieces` : the names in the pieces of a statement, and what is left without
  them;
* `RowStatement.quoted_names_only` : by the rules under which placeholders are found, the quoted
  parts of a statement are its names, and everything else depends on its shape only.
-/

namespace ContentTables

open Piece

/-! ## Names -/

namespace Predicate

mutual

/-- The column of each comparison, behind its table. -/
def names (table : Option String) : Predicate → List String
  | .field column _ _ => table.toList ++ [column]
  | .group parts => namesOf table parts
  | .all parts => namesOf table parts
  | .any parts => namesOf table parts

def namesOf (table : Option String) : List Predicate → List String
  | [] => []
  | p :: ps => p.names table ++ namesOf table ps

end

end Predicate

def Condition.names (c : Condition) (table : Option String) : List String :=
  Predicate.namesOf table c.predicates

/-- A count has one name, which is always the same. -/
def Selection.names : Selection → List String
  | .all => []
  | .columns names => names
  | .count => ["count"]

def SelectQuery.names (q : SelectQuery) (naming : TableNaming) : List String :=
  q.selection.names ++ naming.physical q.table ::
    (q.condition.names (some (naming.physical q.table)) ++ q.groupBy ++ q.orderBy.toList)

namespace JoinTable

variable (t : JoinTable) (naming : TableNaming)

def selectedNames : List String :=
  match t.columns with
  | none => [t.physical naming]
  | some columns => columns.flatMap fun column => [t.physical naming, column]

def keyNames : List String := [t.physical naming, t.relation]

end JoinTable

namespace JoinQuery

/-- Each later table, and the two keys that it is joined on. -/
def joinNames (naming : TableNaming) (previous : JoinTable) : List JoinTable → List String
  | [] => []
  | t :: ts =>
    t.physical naming :: (previous.keyNames naming ++ t.keyNames naming) ++ joinNames naming t ts

def names (q : JoinQuery) (naming : TableNaming) : List String :=
  match q.tables with
  | [] => []
  | anchor :: others =>
    q.tables.flatMap (·.selectedNames naming) ++ anchor.physical naming ::
      joinNames naming anchor others ++
      (q.tables.flatMap fun t => t.condition.names (some (t.physical naming))) ++
      (q.groupBy.flatMap fun (table, column) => [naming.physical table, column]) ++
      q.orderBy.toList.flatMap fun column => [anchor.physical naming, column]

end JoinQuery

namespace RowStatement

def names (naming : TableNaming) : RowStatement → List String
  | .select q => q.names naming
  | .join q => q.names naming
  | .insert table row => naming.physical table :: row.names
  | .update table row condition => naming.physical table :: row.names ++
      condition.names (some (naming.physical table))
  | .delete table condition _ _ => naming.physical table ::
      condition.names (some (naming.physical table))

end RowStatement

/-! ## The names in the pieces -/

theorem names_qualified (table : Option String) (column : String) :
    (qualifiedPieces table column).filterMap name? = table.toList ++ [column] := by
  cases table <;> rfl

theorem names_operator (operator : Operator) : operator.pieces.filterMap name? = [] := by
  cases operator <;> rfl

namespace Predicate

theorem names_enclosed (ps : List Piece) :
    (enclosed ps).filterMap name? = ps.filterMap name? := by
  rw [enclosed, List.filterMap_cons_none rfl, List.filterMap_append]
  exact List.append_nil _

/-- A combination has the names of its parts. -/
theorem names_joined (connective : String) (pss : List (List Piece)) :
    ((joinedPieces connective pss).getD []).filterMap name? =
      pss.flatMap (·.filterMap name?) := by
  cases pss with
  | nil => rfl
  | cons ps pss => exact (names_enclosed _).trans (filterMap_separated _)

theorem names_group (pss : List (List Piece)) :
    ((groupPieces? pss).getD []).filterMap name? = pss.flatMap (·.filterMap name?) := by
  match pss with
  | [] => rfl
  | [ps] => exact (List.flatMap_singleton ..).symm
  | ps :: qs :: pss => exact (names_enclosed _).trans (filterMap_separated _)

mutual

theorem names_pieces? (table : Option String) :
    ∀ p : Predicate, ((p.pieces? table).getD []).filterMap name? = p.names table
  | .field column operator _ => by
    rw [pieces?, names, Option.getD_some, List.filterMap_append, names_qualified, names_operator,
      List.append_nil]
  | .group parts => by rw [pieces?, names, names_group, names_piecesOf table parts]
  | .all parts => by rw [pieces?, names, names_joined, names_piecesOf table parts]
  | .any parts => by rw [pieces?, names, names_joined, names_piecesOf table parts]

theorem names_piecesOf (table : Option String) :
    ∀ ps : List Predicate, (piecesOf table ps).flatMap (·.filterMap name?) = namesOf table ps
  | [] => rfl
  | p :: ps => by
    rw [piecesOf, namesOf, List.flatMap_append, names_piecesOf table ps, ← names_pieces? table p]
    cases p.pieces? table with
    | none => rfl
    | some pieces => rw [Option.toList_some, List.flatMap_singleton, Option.getD_some]

end

end Predicate

theorem Condition.names_pieces (c : Condition) (table : Option String) :
    (c.pieces table).filterMap name? = c.names table :=
  (filterMap_separated _).trans (Predicate.names_piecesOf table c.predicates)

theorem names_where (ps : List Piece) :
    (wherePieces ps).filterMap name? = ps.filterMap name? := by
  unfold wherePieces
  split
  · rename_i hempty
    rw [List.isEmpty_iff.mp hempty]
  · exact List.filterMap_cons_none rfl

theorem names_groups (columns : List (List Piece)) :
    (groupPieces columns).filterMap name? = columns.flatMap (·.filterMap name?) := by
  unfold groupPieces
  split
  · rename_i hempty
    rw [List.isEmpty_iff.mp hempty]
    rfl
  · rw [List.filterMap_cons_none rfl, filterMap_separated]

theorem names_order (column : Option (List Piece)) (order : Order) :
    (orderPieces column order).filterMap name? = column.toList.flatMap (·.filterMap name?) := by
  cases column with
  | none => rfl
  | some c =>
    rw [orderPieces, List.filterMap_cons_none rfl, List.filterMap_append, Option.toList_some,
      List.flatMap_singleton]
    exact List.append_nil _

theorem names_limit (sql : String) : (limitPieces sql).filterMap name? = [] := by
  unfold limitPieces
  split <;> rfl

theorem names_end (groups : List (List Piece)) (column : Option (List Piece)) (order : Order)
    (page perPage : UInt32) : (endPieces groups column order page perPage).filterMap name? =
      groups.flatMap (·.filterMap name?) ++ column.toList.flatMap (·.filterMap name?) := by
  rw [endPieces, List.filterMap_append, List.filterMap_append, names_groups, names_order,
    names_limit, List.append_nil]

theorem names_each (names : List String) :
    (names.map ([Piece.name ·])).flatMap (·.filterMap name?) = names := by
  rw [List.flatMap_map]
  exact List.flatMap_singleton' names

theorem names_selection (selection : Selection) :
    selection.pieces.filterMap name? = selection.names := by
  cases selection with
  | all => rfl
  | columns names => exact (filterMap_separated _).trans (names_each names)
  | count => rfl

theorem SelectQuery.names_pieces (q : SelectQuery) (naming : TableNaming) :
    (q.pieces naming).filterMap name? = q.names naming := by
  have hcolumn : (q.orderBy.map ([Piece.name ·])).toList.flatMap (·.filterMap name?) =
      q.orderBy.toList := by
    cases q.orderBy <;> rfl
  rw [pieces, names, names_plain, List.filterMap_append, names_plain, names_name,
    List.filterMap_append, names_selection, names_where, Condition.names_pieces, names_end,
    names_each, hcolumn, List.append_assoc]

namespace JoinQuery

variable (naming : TableNaming)

theorem names_selected (t : JoinTable) :
    (t.selectedPieces naming).flatMap (·.filterMap name?) = t.selectedNames naming := by
  unfold JoinTable.selectedPieces JoinTable.selectedNames
  cases t.columns with
  | none => rfl
  | some columns => exact List.flatMap_map ..

theorem names_joins (direction : JoinDirection) (previous : JoinTable) (ts : List JoinTable) :
    (joinsPieces direction naming previous ts).flatMap (·.filterMap name?) =
      joinNames naming previous ts := by
  induction ts generalizing previous with
  | nil => rfl
  | cons t ts ih =>
    rw [joinsPieces, joinNames, List.flatMap_cons, ih, joinPieces, names_plain, names_name,
      names_plain, List.filterMap_append, names_plain]
    rfl

/-- A condition that compares nothing has no names. -/
theorem names_conditions (tables : List JoinTable) :
    (conditionPieces tables naming).filterMap name? =
      tables.flatMap fun t => t.condition.names (some (t.physical naming)) := by
  rw [conditionPieces, filterMap_separated]
  induction tables with
  | nil => rfl
  | cons t ts ih =>
    have hhere : (t.conditionPieces naming).filterMap name? =
        t.condition.names (some (t.physical naming)) := t.condition.names_pieces _
    rw [List.map_cons, List.flatMap_cons, ← hhere, ← ih]
    cases t.conditionPieces naming with
    | nil => rfl
    | cons p ps => rfl

theorem names_pieces (q : JoinQuery) : (q.pieces naming).filterMap name? = q.names naming := by
  unfold pieces names
  cases q.tables with
  | nil => rfl
  | cons anchor others =>
    have hcolumn : (q.orderBy.map (qualifiedPieces (some (anchor.physical naming)))).toList.flatMap
        (·.filterMap name?) = q.orderBy.toList.flatMap fun column =>
          [anchor.physical naming, column] := by
      cases q.orderBy <;> rfl
    have hgroups : (q.groupBy.map fun (table, column) =>
        qualifiedPieces (some (naming.physical table)) column).flatMap (·.filterMap name?) =
          q.groupBy.flatMap fun (table, column) => [naming.physical table, column] :=
      List.flatMap_map ..
    have hselected : ((anchor :: others).flatMap (·.selectedPieces naming)).flatMap
        (·.filterMap name?) = (anchor :: others).flatMap (·.selectedNames naming) := by
      rw [List.flatMap_assoc]
      exact List.flatMap_congr fun t _ => names_selected naming t
    have hsources : ([Piece.name (anchor.physical naming)] ::
        joinsPieces q.direction naming anchor others).flatMap (·.filterMap name?) =
          anchor.physical naming :: joinNames naming anchor others :=
      congrArg (List.cons _) (names_joins naming q.direction anchor others)
    rw [names_plain, List.filterMap_append, filterMap_separated, hselected, names_plain,
      List.filterMap_append, filterMap_separated, hsources, List.filterMap_append, names_where,
      names_conditions, names_end, hgroups, hcolumn]
    simp only [List.append_assoc, List.cons_append]

end JoinQuery

theorem names_placeholders (names : List String) :
    (separated ", " (names.map fun _ => [Piece.mark])).filterMap name? = [] := by
  rw [filterMap_separated, List.flatMap_map]
  exact List.flatMap_eq_nil_iff.mpr fun _ _ => rfl

/-- The names of a statement are those that it is to have, in this order. -/
theorem RowStatement.names_pieces (naming : TableNaming) (x : RowStatement) :
    (x.pieces naming).filterMap name? = x.names naming := by
  cases x with
  | select q => exact q.names_pieces naming
  | join q => exact JoinQuery.names_pieces naming q
  | insert table row =>
    rw [pieces, names, insertPieces, names_plain, names_name, names_plain, List.filterMap_append,
      filterMap_separated, names_each, names_plain, List.filterMap_append, names_placeholders]
    exact congrArg _ (List.append_nil _)
  | update table row condition =>
    have hassigned : (row.names.map ([Piece.name ·, .plain " = ", .mark])).flatMap
        (·.filterMap name?) = row.names := by
      rw [List.flatMap_map]
      exact List.flatMap_singleton' row.names
    rw [pieces, names, updatePieces, names_plain, names_name, names_plain, List.filterMap_append,
      filterMap_separated, hassigned, names_where, Condition.names_pieces]
    rfl
  | delete table condition offset limit =>
    rw [pieces, names, deletePieces, names_plain, names_name, List.filterMap_append, names_where,
      Condition.names_pieces, names_limit, List.append_nil]

/-! ## Shapes -/

namespace Predicate

mutual

/-- The tree with its operators, without columns and operands. -/
def shape : Predicate → Predicate
  | .field _ operator _ => .field "" operator (.scalar .null)
  | .group parts => .group (shapes parts)
  | .all parts => .all (shapes parts)
  | .any parts => .any (shapes parts)

def shapes : List Predicate → List Predicate
  | [] => []
  | p :: ps => p.shape :: shapes ps

end

end Predicate

def Condition.shape (c : Condition) : Condition := ⟨Predicate.shapes c.predicates⟩

def Selection.shape : Selection → Selection
  | .all => .all
  | .columns names => .columns (names.map fun _ => "")
  | .count => .count

/-- What a joined table adds to a query. -/
structure JoinShape where
  columns : Option Nat
  condition : Condition

def JoinTable.shape (t : JoinTable) : JoinShape := ⟨t.columns.map List.length, t.condition.shape⟩

/-- What is left of a statement without names and values. -/
inductive RowShape where
  | select (selection : Selection) (condition : Condition) (groups : Nat) (ordered : Bool)
      (order : Order) (page perPage : UInt32)
  | join (direction : JoinDirection) (tables : List JoinShape) (groups : Nat) (ordered : Bool)
      (order : Order) (page perPage : UInt32)
  | insert (columns : Nat)
  | update (columns : Nat) (condition : Condition)
  | delete (condition : Condition) (offset limit : Option UInt64)

def RowStatement.shape : RowStatement → RowShape
  | .select q => .select q.selection.shape q.condition.shape q.groupBy.length q.orderBy.isSome
      q.order q.page q.perPage
  | .join q => .join q.direction (q.tables.map (·.shape)) q.groupBy.length q.orderBy.isSome q.order
      q.page q.perPage
  | .insert _ row => .insert row.names.length
  | .update _ row condition => .update row.names.length condition.shape
  | .delete _ condition offset limit => .delete condition.shape offset limit

/-! ## The pieces without names -/

/-- A table where there was one, without its name. -/
def unnamed (table : Option String) : Option String := table.map fun _ => ""

theorem blank_qualified (table : Option String) (column : String) :
    (qualifiedPieces table column).map blank = qualifiedPieces (unnamed table) "" := by
  cases table <;> rfl

theorem blank_operator (operator : Operator) : operator.pieces.map blank = operator.pieces := by
  cases operator <;> rfl

namespace Predicate

theorem blank_enclosed (ps : List Piece) : (enclosed ps).map blank = enclosed (ps.map blank) := by
  rw [enclosed, List.map_cons, List.map_append]
  rfl

theorem blank_joined (connective : String) (pss : List (List Piece)) :
    (joinedPieces connective pss).map (·.map blank) =
      joinedPieces connective (pss.map (·.map blank)) := by
  cases pss with
  | nil => rfl
  | cons ps pss =>
    exact congrArg some ((blank_enclosed _).trans (congrArg enclosed (map_blank_separated _)))

theorem blank_group (pss : List (List Piece)) :
    (groupPieces? pss).map (·.map blank) = groupPieces? (pss.map (·.map blank)) := by
  match pss with
  | [] => rfl
  | [_] => rfl
  | ps :: qs :: pss =>
    exact congrArg some ((blank_enclosed _).trans (congrArg enclosed (map_blank_separated _)))

mutual

theorem blank_pieces? (table : Option String) :
    ∀ p : Predicate, (p.pieces? table).map (·.map blank) = p.shape.pieces? (unnamed table)
  | .field column operator _ => by
    rw [pieces?, shape, pieces?, Option.map_some, List.map_append, blank_qualified, blank_operator]
  | .group parts => by rw [pieces?, shape, pieces?, blank_group, blank_piecesOf table parts]
  | .all parts => by rw [pieces?, shape, pieces?, blank_joined, blank_piecesOf table parts]
  | .any parts => by rw [pieces?, shape, pieces?, blank_joined, blank_piecesOf table parts]

theorem blank_piecesOf (table : Option String) :
    ∀ ps : List Predicate,
      (piecesOf table ps).map (·.map blank) = piecesOf (unnamed table) (shapes ps)
  | [] => rfl
  | p :: ps => by
    rw [piecesOf, shapes, piecesOf, List.map_append, blank_piecesOf table ps,
      ← blank_pieces? table p]
    cases p.pieces? table <;> rfl

end

end Predicate

theorem Condition.blank_pieces (c : Condition) (table : Option String) :
    (c.pieces table).map blank = c.shape.pieces (unnamed table) :=
  (map_blank_separated _).trans (congrArg _ (Predicate.blank_piecesOf table c.predicates))

theorem blank_where (ps : List Piece) :
    (wherePieces ps).map blank = wherePieces (ps.map blank) := by
  cases ps <;> rfl

theorem blank_groups (columns : List (List Piece)) :
    (groupPieces columns).map blank = groupPieces (columns.map (·.map blank)) := by
  cases columns with
  | nil => rfl
  | cons c columns => exact congrArg (List.cons _) (map_blank_separated _)

theorem blank_order (column : Option (List Piece)) (order : Order) :
    (orderPieces column order).map blank = orderPieces (column.map (·.map blank)) order := by
  cases column with
  | none => rfl
  | some c =>
    rw [orderPieces, List.map_cons, List.map_append]
    rfl

theorem blank_limit (sql : String) : (limitPieces sql).map blank = limitPieces sql := by
  unfold limitPieces
  split <;> rfl

theorem blank_selection (selection : Selection) :
    selection.pieces.map blank = selection.shape.pieces.map blank := by
  cases selection with
  | columns names =>
    rw [Selection.shape, Selection.pieces, Selection.pieces, map_blank_separated,
      map_blank_separated, List.map_map, List.map_map, List.map_map]
    rfl
  | _ => rfl

/-- The columns selected of a joined table. -/
def JoinShape.selected (t : JoinShape) : List (List Piece) :=
  match t.columns with
  | none => [[.name "", .plain ".*"]]
  | some n => List.replicate n (qualifiedPieces (some "") "")

def JoinDirection.pieces (direction : JoinDirection) : List Piece :=
  .plain (direction.sql ++ " ") :: .name "" :: .plain " ON " ::
    (qualifiedPieces (some "") "" ++ .plain " = " :: qualifiedPieces (some "") "")

/-- The pieces of every statement of a shape, without the names. -/
def RowShape.pieces : RowShape → List Piece
  | .select selection condition groups ordered order page perPage =>
    .plain "SELECT " :: (selection.pieces.map blank ++ .plain " FROM " :: .name "" ::
      (wherePieces (condition.pieces (some "")) ++
        endPieces (List.replicate groups [.name ""]) (if ordered then some [.name ""] else none)
          order page perPage))
  | .join _ [] .. => []
  | .join direction (anchor :: others) groups ordered order page perPage =>
    .plain "SELECT " :: (separated ", " ((anchor :: others).flatMap (·.selected)) ++
      .plain " FROM " :: (separated " " ([.name ""] ::
        List.replicate others.length direction.pieces) ++
      (wherePieces (separated " AND "
        (((anchor :: others).map (·.condition.pieces (some ""))).filter fun ps => !ps.isEmpty)) ++
        endPieces (List.replicate groups (qualifiedPieces (some "") ""))
          (if ordered then some (qualifiedPieces (some "") "") else none) order page perPage)))
  | .insert columns =>
    .plain "INSERT INTO " :: .name "" :: .plain " (" ::
      (separated ", " (List.replicate columns [.name ""]) ++ .plain ") VALUES (" ::
        (separated ", " (List.replicate columns [.mark]) ++ [.plain ")"]))
  | .update columns condition =>
    .plain "UPDATE " :: .name "" :: .plain " SET " ::
      (separated ", " (List.replicate columns [.name "", .plain " = ", .mark]) ++
        wherePieces (condition.pieces (some "")))
  | .delete condition offset limit =>
    .plain "DELETE FROM " :: .name "" :: (wherePieces (condition.pieces (some "")) ++
      limitPieces (deleteLimitSql (offset.getD 0) (limit.getD 0)))

/-- What each item makes is the same without names. -/
theorem blank_each {ι : Type} {items : List ι} {pieces : ι → List Piece} {ps : List Piece}
    (h : ∀ i, (pieces i).map blank = ps) :
    (items.map pieces).map (·.map blank) = List.replicate items.length ps := by
  rw [List.map_map]
  exact List.map_eq_replicate_iff.mpr fun i _ => h i

theorem blank_end {ι κ : Type} {groups : List ι} {column : Option κ} {group : ι → List Piece}
    {ordered : κ → List Piece} {g c : List Piece} (hgroup : ∀ i, (group i).map blank = g)
    (hordered : ∀ k, (ordered k).map blank = c) (order : Order) (page perPage : UInt32) :
    (endPieces (groups.map group) (column.map ordered) order page perPage).map blank =
      endPieces (List.replicate groups.length g) (if column.isSome then some c else none) order page
        perPage := by
  have hcolumn : (column.map ordered).map (·.map blank) =
      if column.isSome then some c else none := by
    cases column with
    | none => rfl
    | some k => exact congrArg some (hordered k)
  rw [endPieces, List.map_append, List.map_append, blank_groups, blank_order, blank_limit,
    blank_each hgroup, hcolumn]
  rfl

theorem SelectQuery.blank_pieces (q : SelectQuery) (naming : TableNaming) :
    (q.pieces naming).map blank = (RowStatement.select q).shape.pieces := by
  have hname : ∀ s : String, [Piece.name s].map blank = [.name ""] := fun _ => rfl
  rw [pieces, blank_plain, List.map_append, blank_plain, blank_name, List.map_append, blank_where,
    Condition.blank_pieces, blank_selection, blank_end hname hname]
  rfl

namespace JoinQuery

variable (naming : TableNaming)

theorem blank_selected (ts : List JoinTable) :
    (ts.flatMap (·.selectedPieces naming)).map (·.map blank) =
      (ts.map (·.shape)).flatMap (·.selected) := by
  rw [List.map_flatMap, List.flatMap_map]
  refine List.flatMap_congr fun t _ => ?_
  unfold JoinTable.selectedPieces JoinShape.selected JoinTable.shape
  cases t.columns with
  | none => rfl
  | some columns => exact blank_each fun column => blank_qualified _ column

theorem blank_joins (direction : JoinDirection) (previous : JoinTable) (ts : List JoinTable) :
    (joinsPieces direction naming previous ts).map (·.map blank) =
      List.replicate ts.length direction.pieces := by
  induction ts generalizing previous with
  | nil => rfl
  | cons t ts ih => exact congrArg (List.cons direction.pieces) (ih t)

theorem blank_conditions (ts : List JoinTable) :
    (conditionPieces ts naming).map blank = separated " AND "
      (((ts.map (·.shape)).map (·.condition.pieces (some ""))).filter fun ps => !ps.isEmpty) := by
  rw [conditionPieces, map_blank_separated]
  congr 1
  induction ts with
  | nil => rfl
  | cons t ts ih =>
    have hhere : (t.conditionPieces naming).map blank = t.shape.condition.pieces (some "") :=
      t.condition.blank_pieces _
    rw [List.map_cons, List.map_cons, List.map_cons, ← hhere]
    cases t.conditionPieces naming with
    | nil => exact ih
    | cons p ps => exact congrArg (List.cons _) ih

theorem blank_pieces (q : JoinQuery) :
    (q.pieces naming).map blank = (RowStatement.join q).shape.pieces := by
  rcases q with ⟨direction, _ | ⟨anchor, others⟩, groupBy, orderBy, order, page, perPage⟩
  · rfl
  · have hgroup : ∀ key : String × String,
        (qualifiedPieces (some (naming.physical key.1)) key.2).map blank =
          qualifiedPieces (some "") "" := fun key => blank_qualified _ key.2
    have hordered : ∀ column : String,
        (qualifiedPieces (some (anchor.physical naming)) column).map blank =
          qualifiedPieces (some "") "" := blank_qualified _
    have hsources : (separated " " ([.name (anchor.physical naming)] ::
        joinsPieces direction naming anchor others)).map blank = separated " " ([.name ""] ::
          List.replicate (others.map (·.shape)).length direction.pieces) := by
      rw [map_blank_separated, List.length_map, ← blank_joins naming direction anchor others]
      rfl
    simp only [pieces, blank_plain, List.map_append, map_blank_separated, blank_selected, hsources,
      blank_where, blank_conditions]
    rw [blank_end hgroup hordered]
    rfl

end JoinQuery

theorem RowStatement.blank_pieces (naming : TableNaming) (x : RowStatement) :
    (x.pieces naming).map blank = x.shape.pieces := by
  have hname : ∀ s : String, [Piece.name s].map blank = [.name ""] := fun _ => rfl
  have hassigned : ∀ s : String, [.name s, .plain " = ", .mark].map blank =
      [.name "", .plain " = ", .mark] := fun _ => rfl
  cases x with
  | select q => exact q.blank_pieces naming
  | join q => exact JoinQuery.blank_pieces naming q
  | insert table row =>
    have hmark : ∀ _ : String, [Piece.mark].map blank = [.mark] := fun _ => rfl
    rw [pieces, insertPieces, blank_plain, blank_name, blank_plain, List.map_append,
      map_blank_separated, blank_each hname, blank_plain, List.map_append, map_blank_separated,
      blank_each hmark]
    rfl
  | update table row condition =>
    rw [pieces, updatePieces, blank_plain, blank_name, blank_plain, List.map_append,
      map_blank_separated, blank_each hassigned, blank_where, Condition.blank_pieces]
    rfl
  | delete table condition offset limit =>
    rw [pieces, deletePieces, blank_plain, blank_name, List.map_append, blank_where,
      Condition.blank_pieces, blank_limit]
    rfl

/-! ## Statements -/

/-- The quoted parts of a statement are between backticks and are its names, whatever they hold; up
to each character they are read as the placeholders are looked for. The text outside quotes depends
on the shape of the statement only, and with the names so does the whole text, so values are not in
it. -/
theorem RowStatement.quoted_names_only (naming : TableNaming) (x : RowStatement) (s : Statement)
    (hs : x.statement naming = .ok s) :
    quotedTokens? s.sql = some ((x.names naming).map nameToken) ∧
      (∀ before, before <+: s.sql.toList →
        (Splitter.outside.run before).scanState = ScanState.outside.run before) ∧
      ∀ (other : TableNaming) (y : RowStatement) (t : Statement), y.statement other = .ok t →
        y.shape = x.shape → unquotedChars t.sql.toList = unquotedChars s.sql.toList ∧
          (y.names other = x.names naming → t.sql = s.sql) := by
  have hx := spelled_statement hs
  have hopened : Splitter.outside.Opened := trivial
  refine ⟨names_pieces naming x ▸ hx.quotedTokens?_eq,
    fun before _ => Splitter.scanState_run hopened before, fun other y t ht hshape => ?_⟩
  have hy := spelled_statement ht
  have hblank : (y.pieces other).map blank = (x.pieces naming).map blank := by
    rw [blank_pieces, blank_pieces, hshape]
  constructor
  · have hunquoted : ∀ ps : List Piece, ps.flatMap unquoted = (ps.map blank).flatMap unquoted :=
      fun ps => by rw [List.flatMap_map]; exact List.flatMap_congr fun p _ => p.unquoted_blank.symm
    rw [hx.unquotedChars_eq, hy.unquotedChars_eq, hunquoted, hblank, ← hunquoted]
  · intro hnames
    have hpieces : y.pieces other = x.pieces naming := by
      refine eq_of_blank hblank ?_
      rw [names_pieces, names_pieces, hnames]
    exact String.toList_inj.mp (by rw [hx.text, hy.text, hpieces])

/-- Deletes rows of a table whose name would end the statement and start another one. -/
def hostileDelete : RowStatement :=
  .delete "t\x60; DROP TABLE \x60u"
    ⟨[.field "a?\\'" .equal (.scalar (.str "' OR 1 = 1"))]⟩ none none

def plainDelete : RowStatement := .delete "t" ⟨[.field "a" .equal (.scalar .null)]⟩ none none

/-- Outside its names the one statement is the other. -/
theorem RowStatement.quoted_names_only_hostile :
    ∃ s t, hostileDelete.statement {} = .ok s ∧ plainDelete.statement {} = .ok t ∧
      quotedTokens? s.sql = some [nameToken "t\x60; DROP TABLE \x60u",
        nameToken "t\x60; DROP TABLE \x60u", nameToken "a?\\'"] ∧
      unquotedChars t.sql.toList = unquotedChars s.sql.toList := by
  obtain ⟨htokens, _, hothers⟩ := quoted_names_only {} hostileDelete _ rfl
  obtain ⟨hunquoted, _⟩ := hothers {} plainDelete _ rfl rfl
  exact ⟨_, _, rfl, rfl, htokens, hunquoted⟩

end ContentTables
