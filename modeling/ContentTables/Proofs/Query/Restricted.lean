import ContentTables.Condition.Parse
import ContentTables.Proofs.Query.Pieces
import ContentTables.Proofs.Sql.ClauseMeaning

/-!
# Deletes that are restricted to some rows

A delete may come without a condition, and then it is meant for every row. But a condition can have
parts and still compare nothing, since a combination without comparisons has no text.

* `HasComparison`, `Restricts` : pieces with a comparison in them, and a statement with a comparison
  behind its `WHERE`;
* `Predicate.hasComparison_pieces?` : a tree with a comparison keeps one in its pieces;
* `deleteStatement_of_noField` : a condition that compares nothing is as good as none;
* `restricts_deleteStatement_iff` : a delete is restricted exactly if its condition compares
  something, and otherwise an update with that condition is refused.
-/

namespace ContentTables

open Piece

/-! ## Comparisons among pieces -/

/-- Somewhere a column is compared with a parameter. -/
def HasComparison (ps : List Piece) : Prop :=
  ∃ table column, ∃ operator : Operator, qualifiedPieces table column ++ operator.pieces <:+: ps

namespace HasComparison

variable {ps qs : List Piece}

theorem of_infix (h : HasComparison ps) (hinside : ps <:+: qs) : HasComparison qs := by
  obtain ⟨table, column, operator, hcomparison⟩ := h
  exact ⟨table, column, operator, hcomparison.trans hinside⟩

theorem ne_nil (h : HasComparison ps) : ps ≠ [] := by
  rintro rfl
  obtain ⟨table, column, operator, hinside⟩ := h
  have hnone := (List.append_eq_nil_iff.mp (List.infix_nil.mp hinside)).2
  cases operator <;> exact nomatch hnone

end HasComparison

/-- A comparison stands behind the `WHERE` of the text, which is one outside quotes. -/
def Restricts (sql : String) : Prop :=
  ∃ front back, Spelled sql (front ++ .plain " WHERE " :: back) ∧ HasComparison back

theorem infix_separated {separator : String} {ps : List Piece} {pss : List (List Piece)}
    (h : ps ∈ pss) : ps <:+: separated separator pss := by
  induction pss with
  | nil => exact absurd h List.not_mem_nil
  | cons qs pss ih =>
    cases pss with
    | nil =>
      obtain rfl := List.mem_singleton.mp h
      exact (separated_singleton ps).symm ▸ List.infix_refl ps
    | cons rs pss =>
      rw [separated_cons_cons]
      rcases List.mem_cons.mp h with rfl | h
      · exact (List.prefix_append _ _).isInfix
      · exact ((ih h).trans (List.suffix_cons _ _).isInfix).trans (List.suffix_append _ _).isInfix

namespace Predicate

theorem infix_enclosed (ps : List Piece) : ps <:+: enclosed ps := ⟨[.plain "("], [.plain ")"], rfl⟩

theorem infix_joinedPieces (connective : String) {ps : List Piece} {pss : List (List Piece)}
    (h : ps ∈ pss) : ∃ qs, joinedPieces connective pss = some qs ∧ ps <:+: qs := by
  cases pss with
  | nil => exact absurd h List.not_mem_nil
  | cons first others => exact ⟨_, rfl, (infix_separated h).trans (infix_enclosed _)⟩

theorem infix_groupPieces? {ps : List Piece} {pss : List (List Piece)} (h : ps ∈ pss) :
    ∃ qs, groupPieces? pss = some qs ∧ ps <:+: qs := by
  match pss, h with
  | [qs], h =>
    obtain rfl := List.mem_singleton.mp h
    exact ⟨ps, rfl, List.infix_refl ps⟩
  | _ :: _ :: _, h => exact ⟨_, rfl, (infix_separated h).trans (infix_enclosed _)⟩

mutual

theorem hasComparison_pieces? (table : Option String) : ∀ {p : Predicate}, p.hasField = true →
    ∃ ps, p.pieces? table = some ps ∧ HasComparison ps
  | .field column operator _, _ => ⟨_, rfl, table, column, operator, List.infix_refl _⟩
  | .group parts, h => by
    obtain ⟨ps, hmem, hps⟩ := hasComparison_piecesOf table h
    obtain ⟨qs, hqs, hinside⟩ := infix_groupPieces? hmem
    exact ⟨qs, hqs, hps.of_infix hinside⟩
  | .all parts, h => by
    obtain ⟨ps, hmem, hps⟩ := hasComparison_piecesOf table h
    obtain ⟨qs, hqs, hinside⟩ := infix_joinedPieces " AND " hmem
    exact ⟨qs, hqs, hps.of_infix hinside⟩
  | .any parts, h => by
    obtain ⟨ps, hmem, hps⟩ := hasComparison_piecesOf table h
    obtain ⟨qs, hqs, hinside⟩ := infix_joinedPieces " OR " hmem
    exact ⟨qs, hqs, hps.of_infix hinside⟩

theorem hasComparison_piecesOf (table : Option String) : ∀ {ps : List Predicate},
    anyHasField ps = true → ∃ qs ∈ piecesOf table ps, HasComparison qs
  | [], h => nomatch h
  | p :: ps, h => by
    rw [piecesOf]
    rcases Bool.or_eq_true_iff.mp h with hp | hps
    · obtain ⟨qs, hqs, hcomparison⟩ := hasComparison_pieces? table hp
      have hmem : qs ∈ (p.pieces? table).toList := by
        rw [hqs]
        exact List.mem_singleton_self qs
      exact ⟨qs, List.mem_append_left _ hmem, hcomparison⟩
    · obtain ⟨qs, hmem, hcomparison⟩ := hasComparison_piecesOf table hps
      exact ⟨qs, List.mem_append_right _ hmem, hcomparison⟩

end

end Predicate

namespace Condition

theorem hasComparison_pieces {c : Condition} (h : c.hasField = true) (table : Option String) :
    HasComparison (c.pieces table) := by
  obtain ⟨ps, hmem, hps⟩ := Predicate.hasComparison_piecesOf table h
  exact hps.of_infix (infix_separated hmem)

theorem wherePieces_pieces {c : Condition} (h : c.hasField = true) (table : Option String) :
    wherePieces (c.pieces table) = .plain " WHERE " :: c.pieces table := by
  rw [wherePieces, if_neg]
  exact fun hnil => (hasComparison_pieces h table).ne_nil (List.isEmpty_iff.mp hnil)

/-- Without comparisons there is neither text nor parameter. -/
theorem compile_of_noField {c : Condition} (h : c.hasField = false) (table : Option String) :
    c.compile table = empty.compile table := by
  have hclauses : Predicate.clauses table c.predicates = [] := by
    rw [← List.isEmpty_iff, Predicate.isEmpty_clauses, Bool.not_eq_true']
    exact h
  have hparams : Predicate.paramsOf c.predicates = [] := Predicate.paramsOf_eq_nil.mpr h
  rw [compile, hclauses, hparams]
  rfl

theorem isEmpty_compile (c : Condition) (table : Option String) :
    (c.compile table).isEmpty = !c.hasField := by
  cases h : c.hasField with
  | false =>
    rw [compile_of_noField h]
    rfl
  | true =>
    rw [Clause.isEmpty_eq (c.spelled_compile table), Bool.not_true, List.isEmpty_eq_false_iff]
    exact (hasComparison_pieces h table).ne_nil

end Condition

/-! ## Deletes -/

theorem not_mem_deleteLimitSql (offset limit : UInt64) :
    'W' ∉ (deleteLimitSql offset limit).toList := by
  have hnumber : ∀ n : Nat, 'W' ∉ (toString n).toList :=
    fun n hmem => absurd (isDigit_of_mem_toString hmem) (by decide)
  have hword : 'W' ∉ " LIMIT ".toList := by decide
  have hcomma : 'W' ∉ ", ".toList := by decide
  unfold deleteLimitSql
  split
  · decide
  · split <;> simp only [String.toList_append, List.mem_append, hword, hcomma, hnumber, or_self,
      not_false_eq_true]

section Delete
variable (naming : TableNaming) (table : String) {c : Condition} (offset limit : Option UInt64)

/-- A condition that compares nothing restricts nothing. -/
theorem deleteStatement_of_noField (h : c.hasField = false) :
    deleteStatement naming table c offset limit =
      deleteStatement naming table .empty offset limit := by
  unfold deleteStatement
  rw [Condition.compile_of_noField h]

theorem restricts_deleteStatement (h : c.hasField = true) :
    Restricts (deleteStatement naming table c offset limit).sql := by
  have hcomparison := Condition.hasComparison_pieces h (some (naming.physical table))
  have hspelled := spelled_delete naming table c offset limit
  rw [deletePieces, Condition.wherePieces_pieces h] at hspelled
  exact ⟨[.plain "DELETE FROM ", .name (naming.physical table)], _, hspelled,
    hcomparison.of_infix (List.prefix_append _ _).isInfix⟩

/-- No other part of the statement has a `W` outside quotes. -/
theorem not_restricts_delete_empty :
    ¬Restricts (deleteStatement naming table .empty offset limit).sql := by
  rintro ⟨front, back, hwhere, -⟩
  have hspelled := spelled_delete naming table .empty offset limit
  have hunquoted := unquotedChars_chars hwhere.calm
  rw [← hwhere.text, hspelled.text, unquotedChars_chars hspelled.calm] at hunquoted
  have hmem : 'W' ∈ (front ++ .plain " WHERE " :: back).flatMap unquoted :=
    List.mem_flatMap_of_mem (List.mem_append_right _ List.mem_cons_self) (by decide)
  rw [← hunquoted] at hmem
  obtain ⟨p, hp, hmem⟩ := List.mem_flatMap.mp hmem
  rcases List.mem_cons.mp hp with rfl | hp
  · exact absurd hmem (by decide)
  rcases List.mem_cons.mp hp with rfl | hp
  · exact absurd hmem List.not_mem_nil
  unfold limitPieces at hp
  split at hp
  · exact absurd hp List.not_mem_nil
  · obtain rfl := List.mem_singleton.mp hp
    exact not_mem_deleteLimitSql _ _ hmem

end Delete

/-- A delete compares a column behind its `WHERE` exactly if its condition has a comparison in it.
With any other condition it is the delete without one, of every row as far as the limit goes, and an
update is refused. -/
theorem restricts_deleteStatement_iff (naming : TableNaming) (table : String) (c : Condition)
    (offset limit : Option UInt64) (row : Row) :
    (Restricts (deleteStatement naming table c offset limit).sql ↔ c.hasField = true) ∧
    (deleteStatement naming table c offset limit = deleteStatement naming table .empty offset limit
      ↔ c.hasField = false) ∧
    (updateStatement naming table row c = .error .updateNeedsCondition ↔ c.hasField = false) := by
  have hupdate : updateStatement naming table row c = .error .updateNeedsCondition ↔
      c.hasField = false := by
    unfold updateStatement
    simp only [Condition.isEmpty_compile]
    cases c.hasField <;> simp
  cases h : c.hasField with
  | false =>
    rw [h] at hupdate
    have hsame := deleteStatement_of_noField naming table offset limit h
    rw [hsame]
    have hnone := not_restricts_delete_empty naming table offset limit
    exact ⟨iff_of_false hnone Bool.false_ne_true, iff_of_true rfl rfl, hupdate⟩
  | true =>
    rw [h] at hupdate
    have hrestricts := restricts_deleteStatement naming table offset limit h
    refine ⟨iff_of_true hrestricts rfl, iff_of_false (fun hsame => ?_) nofun, hupdate⟩
    rw [hsame] at hrestricts
    exact not_restricts_delete_empty naming table offset limit hrestricts

/-- Alternatives of which there are none: the condition is not empty, and the delete takes every
row. -/
theorem not_restricts_noAlternatives :
    let c : Condition := ⟨[.any []]⟩
    Condition.parse (.obj [("$or", .arr [])]) = .ok c ∧ c.isEmpty = false ∧
      (deleteStatement {} "t" c none none).sql = "DELETE FROM \x60t\x60" ∧
      ¬Restricts (deleteStatement {} "t" c none none).sql := by
  intro c
  refine ⟨rfl, rfl, by decide, ?_⟩
  rw [deleteStatement_of_noField {} "t" none none (by rfl : c.hasField = false)]
  exact not_restricts_delete_empty {} "t" none none

end ContentTables
