import ContentTables.Proofs.Condition.Parsed
import ContentTables.Proofs.Query.Pieces
import ContentTables.Proofs.Sql.QuotedTokens

/-!
# Placeholders and parameters of statements on rows

A misplaced parameter would be compared with another column. So a statement has to have one
placeholder for each parameter, in the order of the operands, when it is built and after it was
expanded.

* `RowStatement.operands`, `RowStatement.WellShaped` : the operands in the order in which they are
  read, a value to be written standing for itself, and what they have to look like;
* `aligned_pieces` : the statement has one placeholder for each parameter;
* `params_statement` : its parameters are those of the operands;
* `RowStatement.placeholders_aligned` : what the parser lets through is well-shaped, and a statement
  with well-shaped operands is expanded to as many placeholders as parameters.
-/

namespace ContentTables

/-! ## Operands in reading order -/

namespace Predicate

mutual

def comparisons : Predicate → List (Operator × Operand)
  | .field _ operator operand => [(operator, operand)]
  | .group parts => comparisonsOf parts
  | .all parts => comparisonsOf parts
  | .any parts => comparisonsOf parts

def comparisonsOf : List Predicate → List (Operator × Operand)
  | [] => []
  | p :: ps => p.comparisons ++ comparisonsOf ps

end

mutual

theorem params_eq : ∀ p : Predicate, p.params = p.comparisons.flatMap (·.2.params)
  | .field _ _ operand => by rw [params, comparisons, List.flatMap_singleton]
  | .group parts => by rw [params, comparisons, paramsOf_eq parts]
  | .all parts => by rw [params, comparisons, paramsOf_eq parts]
  | .any parts => by rw [params, comparisons, paramsOf_eq parts]

theorem paramsOf_eq :
    ∀ ps : List Predicate, paramsOf ps = (comparisonsOf ps).flatMap (·.2.params)
  | [] => rfl
  | p :: ps => by rw [paramsOf, comparisonsOf, List.flatMap_append, params_eq p, paramsOf_eq ps]

end

mutual

theorem everyField_iff_comparisons {P : Operator → Operand → Bool} :
    ∀ p : Predicate, p.everyField P = true ↔ ∀ c ∈ p.comparisons, P c.1 c.2 = true
  | .field _ operator operand => by rw [everyField, comparisons, List.forall_mem_singleton]
  | .group parts => by rw [everyField, comparisons, everyFieldOf_iff_comparisons parts]
  | .all parts => by rw [everyField, comparisons, everyFieldOf_iff_comparisons parts]
  | .any parts => by rw [everyField, comparisons, everyFieldOf_iff_comparisons parts]

theorem everyFieldOf_iff_comparisons {P : Operator → Operand → Bool} :
    ∀ ps : List Predicate, everyFieldOf P ps = true ↔ ∀ c ∈ comparisonsOf ps, P c.1 c.2 = true
  | [] => by simp [everyFieldOf, comparisonsOf]
  | p :: ps => by
    rw [everyFieldOf, comparisonsOf, Bool.and_eq_true_iff, everyField_iff_comparisons p,
      everyFieldOf_iff_comparisons ps, List.forall_mem_append]

end

end Predicate

namespace Condition

def operands (c : Condition) : List Operand :=
  (Predicate.comparisonsOf c.predicates).map Prod.snd

theorem params_compile (c : Condition) (table : Option String) :
    (c.compile table).params = c.operands.flatMap Operand.params := by
  rw [operands, List.flatMap_map]
  exact Predicate.paramsOf_eq c.predicates

theorem WellShaped.fitting {c : Condition} (h : c.WellShaped) : c.Fitting := by
  unfold WellShaped at h
  unfold Fitting
  rw [Predicate.everyFieldOf_iff_comparisons] at h ⊢
  exact fun comparison hmem => (Bool.and_eq_true_iff.mp (h comparison hmem)).1

theorem WellShaped.scalars {c : Condition} (h : c.WellShaped) :
    ∀ operand ∈ c.operands, ∀ v ∈ operand.values, v.isScalar = true := by
  intro operand hmem
  obtain ⟨comparison, hcomparison, rfl⟩ := List.mem_map.mp hmem
  have hshaped := Predicate.everyFieldOf_iff_comparisons _ |>.mp h comparison hcomparison
  exact List.all_eq_true.mp (Bool.and_eq_true_iff.mp hshaped).2

end Condition

/-! ## One placeholder for each parameter -/

theorem aligned_qualified (table : Option String) (column : String) :
    Aligned (qualifiedPieces table column) [] := by
  cases table with
  | none => exact .name column .nil
  | some t => exact .name t (.plain "." (.name column .nil))

theorem aligned_operator {operator : Operator} {operand : Operand}
    (h : operand.fits operator = true) : Aligned operator.pieces operand.params := by
  cases operand with
  | scalar v =>
    cases operator with
    | isIn | notIn | between => exact absurd h Bool.false_ne_true
    | _ => exact .plain _ (.mark v .nil)
  | list vs =>
    cases operator with
    | isIn | notIn => exact .plain _ (.mark (.arr vs) (.plain _ .nil))
    | _ => exact absurd h Bool.false_ne_true
  | range low high =>
    cases operator with
    | between => exact .plain _ (.mark low (.plain _ (.mark high .nil)))
    | _ => exact absurd h Bool.false_ne_true

namespace Predicate

theorem aligned_enclosed {ps : List Piece} {vs : List Json} (h : Aligned ps vs) :
    Aligned (enclosed ps) vs := by
  have hclosing := h.append (.plain ")" .nil)
  rw [List.append_nil] at hclosing
  exact hclosing.plain "("

theorem aligned_joined (connective : String) {pss : List (List Piece)} {vss : List (List Json)}
    (h : List.Forall₂ Aligned pss vss) :
    Aligned ((joinedPieces connective pss).getD []) vss.flatten := by
  cases h with
  | nil => exact .nil
  | cons hfirst hrest => exact aligned_enclosed (Aligned.separated (.cons hfirst hrest))

theorem aligned_group {pss : List (List Piece)} {vss : List (List Json)}
    (h : List.Forall₂ Aligned pss vss) : Aligned ((groupPieces? pss).getD []) vss.flatten := by
  cases h with
  | nil => exact .nil
  | cons hfirst hrest =>
    cases hrest with
    | nil =>
      rw [List.flatten_singleton]
      exact hfirst
    | cons hnext hothers =>
      exact aligned_enclosed (Aligned.separated (.cons hfirst (.cons hnext hothers)))

mutual

theorem aligned_pieces? (table : Option String) : ∀ {p : Predicate},
    p.everyField Operand.fits = true → Aligned ((p.pieces? table).getD []) p.params
  | .field column operator operand, h =>
    (aligned_qualified table column).append (aligned_operator h)
  | .group parts, h => by
    obtain ⟨vss, haligned, hparams⟩ := aligned_piecesOf table h
    rw [pieces?, params, ← hparams]
    exact aligned_group haligned
  | .all parts, h => by
    obtain ⟨vss, haligned, hparams⟩ := aligned_piecesOf table h
    rw [pieces?, params, ← hparams]
    exact aligned_joined " AND " haligned
  | .any parts, h => by
    obtain ⟨vss, haligned, hparams⟩ := aligned_piecesOf table h
    rw [pieces?, params, ← hparams]
    exact aligned_joined " OR " haligned

theorem aligned_piecesOf (table : Option String) : ∀ {ps : List Predicate},
    everyFieldOf Operand.fits ps = true →
      ∃ vss, List.Forall₂ Aligned (piecesOf table ps) vss ∧ vss.flatten = paramsOf ps
  | [], _ => ⟨[], .nil, rfl⟩
  | p :: ps, h => by
    obtain ⟨hp, hps⟩ := Bool.and_eq_true_iff.mp h
    obtain ⟨vss, haligned, hparams⟩ := aligned_piecesOf table hps
    have hhere := aligned_pieces? table hp
    rw [piecesOf, paramsOf, ← hparams]
    cases hpieces : p.pieces? table with
    | none =>
      rw [hpieces] at hhere
      rw [hhere.eq_nil]
      exact ⟨vss, haligned, rfl⟩
    | some pieces =>
      rw [hpieces] at hhere
      exact ⟨p.params :: vss, .cons hhere haligned, rfl⟩

end

end Predicate

theorem Condition.aligned_pieces {c : Condition} (h : c.Fitting) (table : Option String) :
    Aligned (c.pieces table) (c.compile table).params := by
  obtain ⟨vss, haligned, hparams⟩ := Predicate.aligned_piecesOf table h
  unfold compile
  rw [← hparams]
  exact Aligned.separated haligned

/-! ## Statements -/

theorem aligned_where {ps : List Piece} {vs : List Json} (h : Aligned ps vs) :
    Aligned (wherePieces ps) vs := by
  cases ps with
  | nil => exact h
  | cons p ps => exact h.plain " WHERE "

theorem aligned_limit (sql : String) : Aligned (limitPieces sql) [] := by
  unfold limitPieces
  split
  · exact .nil
  · exact .plain sql .nil

/-- Texts without placeholders, with a text between them. -/
theorem aligned_names (separator : String) {pss : List (List Piece)}
    (h : ∀ ps ∈ pss, Aligned ps []) : Aligned (separated separator pss) [] := by
  have haligned : List.Forall₂ Aligned pss (pss.map fun _ => []) := by
    rw [List.forall₂_map_right_iff, List.forall₂_same]
    exact h
  have hflatten : (pss.map fun _ => ([] : List Json)).flatten = [] := by simp
  exact hflatten ▸ Aligned.separated haligned

theorem aligned_end {groups : List (List Piece)} {column : Option (List Piece)}
    (hgroups : ∀ ps ∈ groups, Aligned ps []) (hcolumn : ∀ ps ∈ column, Aligned ps [])
    (order : Order) (page perPage : UInt32) :
    Aligned (endPieces groups column order page perPage) [] := by
  have hgroup : Aligned (groupPieces groups) [] := by
    unfold groupPieces
    split
    · exact .nil
    · exact (aligned_names _ hgroups).plain _
  have horder : Aligned (orderPieces column order) [] := by
    cases column with
    | none => exact .nil
    | some ps => exact ((hcolumn ps rfl).append (.plain _ .nil)).plain _
  exact hgroup.append (horder.append (aligned_limit _))

theorem aligned_name_each (names : List String) :
    ∀ ps ∈ names.map ([Piece.name ·]), Aligned ps [] := by
  intro ps hps
  obtain ⟨name, _, rfl⟩ := List.mem_map.mp hps
  exact .name name .nil

theorem aligned_selection (selection : Selection) : Aligned selection.pieces [] := by
  cases selection with
  | all => exact .plain _ .nil
  | columns names => exact aligned_names _ (aligned_name_each names)
  | count => exact .plain _ (.name _ .nil)

theorem aligned_select {q : SelectQuery} (h : q.condition.Fitting) (naming : TableNaming) :
    Aligned (q.pieces naming) (q.statement naming).params := by
  have hwhere := aligned_where (Condition.aligned_pieces h (some (naming.physical q.table)))
  have hcolumn : ∀ ps ∈ q.orderBy.map ([Piece.name ·]), Aligned ps [] := by
    intro ps hps
    obtain ⟨name, _, rfl⟩ := Option.map_eq_some_iff.mp hps
    exact .name name .nil
  have hend := aligned_end (aligned_name_each q.groupBy) hcolumn q.order q.page q.perPage
  have hrest := (hwhere.append hend).name (naming.physical q.table)
  rw [List.append_nil] at hrest
  exact ((aligned_selection q.selection).append (hrest.plain " FROM ")).plain "SELECT "

namespace JoinQuery

variable {naming : TableNaming}

variable (naming) in
/-- Conditions that compare nothing are left out of both. -/
theorem aligned_conditions {tables : List JoinTable} (h : ∀ t ∈ tables, t.condition.Fitting) :
    Aligned (conditionPieces tables naming) (joinedClause (tables.map (·.clause naming))).params ∧
      (joinedClause (tables.map (·.clause naming))).params =
        tables.flatMap fun t => (t.clause naming).params := by
  have hsplit : ∃ vss, List.Forall₂ Aligned
      ((tables.map (·.conditionPieces naming)).filter fun ps => !ps.isEmpty) vss ∧
        vss.flatten = (joinedClause (tables.map (·.clause naming))).params ∧
        vss.flatten = tables.flatMap fun t => (t.clause naming).params := by
    induction tables with
    | nil => exact ⟨[], .nil, rfl, rfl⟩
    | cons t ts ih =>
      obtain ⟨ht, hts⟩ := List.forall_mem_cons.mp h
      obtain ⟨vss, haligned, hparams, hall⟩ := ih hts
      have hhere : Aligned (t.conditionPieces naming) (t.clause naming).params :=
        Condition.aligned_pieces ht _
      have hempty := Clause.isEmpty_eq (t.spelled_clause naming)
      rw [List.map_cons, List.map_cons, List.flatMap_cons, ← hall]
      simp only [joinedClause, List.filter_cons, hempty] at hparams ⊢
      cases hpieces : t.conditionPieces naming with
      | nil =>
        rw [hpieces] at hhere
        rw [hhere.eq_nil]
        exact ⟨vss, haligned, hparams, rfl⟩
      | cons p ps =>
        rw [hpieces] at hhere
        exact ⟨(t.clause naming).params :: vss, .cons hhere haligned,
          congrArg ((t.clause naming).params ++ ·) hparams, rfl⟩
  obtain ⟨vss, haligned, hparams, hall⟩ := hsplit
  exact ⟨hparams ▸ Aligned.separated haligned, hparams.symm.trans hall⟩

theorem aligned_selected (t : JoinTable) : ∀ ps ∈ t.selectedPieces naming, Aligned ps [] := by
  intro ps hps
  unfold JoinTable.selectedPieces at hps
  split at hps
  · rw [List.mem_singleton.mp hps]
    exact .name _ (.plain _ .nil)
  · obtain ⟨column, _, rfl⟩ := List.mem_map.mp hps
    exact aligned_qualified _ column

theorem aligned_joins (direction : JoinDirection) (previous : JoinTable) (ts : List JoinTable) :
    ∀ ps ∈ joinsPieces direction naming previous ts, Aligned ps [] := by
  induction ts generalizing previous with
  | nil => exact nofun
  | cons t ts ih =>
    have hkeys : Aligned (previous.keyPieces naming ++ .plain " = " :: t.keyPieces naming) [] :=
      (aligned_qualified _ _).append ((aligned_qualified _ _).plain _)
    exact List.forall_mem_cons.mpr ⟨.plain _ (.name _ (.plain _ hkeys)), ih t⟩

theorem aligned_statement {q : JoinQuery} (h : ∀ t ∈ q.tables, t.condition.Fitting)
    {s : Statement} (hs : q.statement naming = .ok s) :
    Aligned (q.pieces naming) s.params ∧
      s.params = q.tables.flatMap fun t => (t.clause naming).params := by
  rcases q with ⟨direction, _ | ⟨anchor, others⟩, groupBy, orderBy, order, page, perPage⟩
  · exact nomatch hs
  · obtain rfl := Except.ok.inj hs
    obtain ⟨hconditions, hparams⟩ := aligned_conditions naming h
    refine ⟨?_, hparams⟩
    have hgroups : ∀ ps ∈ groupBy.map (fun key =>
        qualifiedPieces (some (naming.physical key.1)) key.2), Aligned ps [] := by
      intro ps hps
      obtain ⟨key, _, rfl⟩ := List.mem_map.mp hps
      exact aligned_qualified _ key.2
    have hcolumn : ∀ ps ∈ orderBy.map (qualifiedPieces (some (anchor.physical naming))),
        Aligned ps [] := by
      intro ps hps
      obtain ⟨column, _, rfl⟩ := Option.map_eq_some_iff.mp hps
      exact aligned_qualified _ column
    have hselected :
        ∀ ps ∈ (anchor :: others).flatMap (·.selectedPieces naming), Aligned ps [] := by
      intro ps hps
      obtain ⟨t, _, hps⟩ := List.mem_flatMap.mp hps
      exact aligned_selected t ps hps
    have hsources : ∀ ps ∈ [.name (anchor.physical naming)] ::
        joinsPieces direction naming anchor others, Aligned ps [] :=
      List.forall_mem_cons.mpr ⟨.name _ .nil, aligned_joins direction anchor others⟩
    have hend := aligned_end hgroups hcolumn order page perPage
    have hrest := (aligned_where hconditions).append hend
    rw [List.append_nil] at hrest
    have hfrom := ((aligned_names " " hsources).append hrest).plain " FROM "
    exact ((aligned_names ", " hselected).append hfrom).plain "SELECT "

end JoinQuery

/-- One placeholder for each item. -/
theorem aligned_each {ι : Type} {pieces : ι → List Piece} {value : ι → Json}
    (h : ∀ i, Aligned (pieces i) [value i]) (separator : String) (items : List ι) :
    Aligned (separated separator (items.map pieces)) (items.map value) := by
  have haligned : List.Forall₂ Aligned (items.map pieces) (items.map fun i => [value i]) := by
    rw [List.forall₂_map_left_iff, List.forall₂_map_right_iff, List.forall₂_same]
    exact fun i _ => h i
  have hflatten : (items.map fun i => [value i]).flatten = items.map value := by
    rw [← List.flatMap_def, List.map_eq_flatMap]
  exact hflatten ▸ Aligned.separated haligned

theorem aligned_insert (naming : TableNaming) (table : String) (row : Row) :
    Aligned (insertPieces naming table row) (insertStatement naming table row).params := by
  have hvalues : Aligned (separated ", " (row.names.map fun _ => [.mark]))
      (row.entries.map Prod.snd) := by
    rw [OrderedMap.names, namesOf, List.map_map]
    exact aligned_each (fun e => .mark e.2 .nil) ", " row.entries
  have hclosing := (hvalues.append (.plain ")" .nil)).plain ") VALUES ("
  rw [List.append_nil] at hclosing
  have hnames := aligned_names ", " (aligned_name_each row.names)
  exact (((hnames.append hclosing).plain " (").name _).plain "INSERT INTO "

theorem aligned_assignments (row : Row) :
    Aligned (separated ", " (row.names.map ([.name ·, .plain " = ", .mark])))
      (row.entries.map Prod.snd) := by
  rw [OrderedMap.names, namesOf, List.map_map]
  exact aligned_each (fun e => .name e.1 (.plain " = " (.mark e.2 .nil))) ", " row.entries

theorem aligned_update {naming : TableNaming} {table : String} {row : Row} {condition : Condition}
    (h : condition.Fitting) {s : Statement}
    (hs : updateStatement naming table row condition = .ok s) :
    Aligned (updatePieces naming table row condition) s.params ∧ s.params =
      row.entries.map Prod.snd ++ (condition.compile (some (naming.physical table))).params := by
  unfold updateStatement at hs
  simp only at hs
  split at hs
  · exact nomatch hs
  · obtain rfl := Except.ok.inj hs
    have hwhere := aligned_where (Condition.aligned_pieces h (some (naming.physical table)))
    exact ⟨((((aligned_assignments row).append hwhere).plain " SET ").name _).plain "UPDATE ", rfl⟩

theorem aligned_delete (naming : TableNaming) (table : String) {condition : Condition}
    (h : condition.Fitting) (offset limit : Option UInt64) :
    Aligned (deletePieces naming table condition offset limit)
      (deleteStatement naming table condition offset limit).params := by
  have hwhere := aligned_where (Condition.aligned_pieces h (some (naming.physical table)))
  have hrest := hwhere.append (aligned_limit (deleteLimitSql (offset.getD 0) (limit.getD 0)))
  rw [List.append_nil] at hrest
  exact (hrest.name _).plain "DELETE FROM "

/-! ## All of them -/

/-- What stands for the operand in an expanded statement. -/
def Operand.marks : Operand → List String
  | .scalar _ => ["?"]
  | .list [] => ["NULL"]
  | .list (v :: vs) => [placeholders (v :: vs)]
  | .range _ _ => ["?", "?"]

theorem fill_scalar {v : Json} (h : v.isScalar = true) : Statement.fill v = ("?", [v]) := by
  cases v with
  | arr items => exact absurd h Bool.false_ne_true
  | _ => rfl

theorem Operand.filled {operand : Operand} (h : ∀ v ∈ operand.values, v.isScalar = true) :
    (operand.params.flatMap fun v => (Statement.fill v).2) = operand.values ∧
      (operand.params.map fun v => (Statement.fill v).1) = operand.marks := by
  cases operand with
  | scalar v =>
    have hv := fill_scalar (h v List.mem_cons_self)
    simp [params, values, marks, hv]
  | list vs => cases vs <;> simp [params, values, marks, Statement.fill]
  | range low high =>
    have hlow := fill_scalar (h low List.mem_cons_self)
    have hhigh := fill_scalar (h high (List.mem_cons_of_mem _ List.mem_cons_self))
    simp [params, values, marks, hlow, hhigh]

namespace RowStatement

/-- The values of a row that is written stand for themselves. -/
def rowOperands (row : Row) : List Operand := row.entries.map fun e => .scalar e.2

/-- The operands in reading order; those of a join table by table. -/
def operands : RowStatement → List Operand
  | .select q => q.condition.operands
  | .join q => q.tables.flatMap (·.condition.operands)
  | .insert _ row => rowOperands row
  | .update _ row condition => rowOperands row ++ condition.operands
  | .delete _ condition _ _ => condition.operands

/-- Every operand has the shape that its operator takes, with scalars in it; lists may be empty. -/
def WellShaped : RowStatement → Prop
  | .select q => q.condition.WellShaped
  | .join q => ∀ t ∈ q.tables, t.condition.WellShaped
  | .insert _ row => ∀ e ∈ row.entries, e.2.isScalar = true
  | .update _ row condition => (∀ e ∈ row.entries, e.2.isScalar = true) ∧ condition.WellShaped
  | .delete _ condition _ _ => condition.WellShaped

theorem params_rowOperands (row : Row) :
    (rowOperands row).flatMap Operand.params = row.entries.map Prod.snd := by
  rw [rowOperands, List.flatMap_map, List.map_eq_flatMap]
  rfl

theorem scalars_rowOperands {row : Row} (h : ∀ e ∈ row.entries, e.2.isScalar = true) :
    ∀ operand ∈ rowOperands row, ∀ v ∈ operand.values, v.isScalar = true := by
  intro operand hmem
  obtain ⟨e, he, rfl⟩ := List.mem_map.mp hmem
  exact List.forall_mem_singleton.mpr (h e he)

theorem scalars_operands {x : RowStatement} (h : x.WellShaped) :
    ∀ operand ∈ x.operands, ∀ v ∈ operand.values, v.isScalar = true := by
  cases x with
  | select q => exact Condition.WellShaped.scalars h
  | join q =>
    intro operand hmem
    obtain ⟨t, ht, hmem⟩ := List.mem_flatMap.mp hmem
    exact (h t ht).scalars operand hmem
  | insert table row => exact scalars_rowOperands h
  | update table row condition =>
    exact List.forall_mem_append.mpr ⟨scalars_rowOperands h.1, h.2.scalars⟩
  | delete table condition offset limit => exact Condition.WellShaped.scalars h

theorem aligned_statement {x : RowStatement} (h : x.WellShaped) {naming : TableNaming}
    {s : Statement} (hs : x.statement naming = .ok s) :
    Aligned (x.pieces naming) s.params ∧ s.params = x.operands.flatMap Operand.params := by
  cases x with
  | select q =>
    obtain rfl := Except.ok.inj hs
    exact ⟨aligned_select (Condition.WellShaped.fitting h) naming,
      q.condition.params_compile (some (naming.physical q.table))⟩
  | join q =>
    obtain ⟨haligned, hparams⟩ :=
      JoinQuery.aligned_statement (fun t ht => (h t ht).fitting) hs
    refine ⟨haligned, hparams.trans ?_⟩
    rw [operands, List.flatMap_assoc]
    exact List.flatMap_congr fun t _ => t.condition.params_compile _
  | insert table row =>
    obtain rfl := Except.ok.inj hs
    exact ⟨aligned_insert naming table row, (params_rowOperands row).symm⟩
  | update table row condition =>
    obtain ⟨haligned, hparams⟩ := aligned_update h.2.fitting hs
    refine ⟨haligned, hparams.trans ?_⟩
    rw [operands, List.flatMap_append, params_rowOperands, Condition.params_compile]
  | delete table condition offset limit =>
    obtain rfl := Except.ok.inj hs
    exact ⟨aligned_delete naming table (Condition.WellShaped.fitting h) offset limit,
      condition.params_compile (some (naming.physical table))⟩

/-- What the parser lets through is well-shaped at every depth. A statement with well-shaped
operands is expanded to as many placeholders as parameters, whatever its names hold. The parameters
are the operands in reading order, each list flattened, and none is an array or an object; the text
outside quotes is the one from before, with what stands for each operand in place of its
placeholders. -/
theorem placeholders_aligned :
    (∀ (v : Json) (c : Condition), Condition.parse v = .ok c → c.Accepted) ∧
    ∀ (naming : TableNaming) (x : RowStatement) (s : Statement), x.WellShaped →
      x.statement naming = .ok s →
        (unquotedChars s.expand.sql.toList).count '?' = s.expand.params.length ∧
        (∀ v ∈ s.expand.params, v.isScalar = true) ∧
        s.expand.params = x.operands.flatMap Operand.values ∧
        unquotedChars s.expand.sql.toList =
          fillMarks (unquotedChars s.sql.toList) (x.operands.flatMap Operand.marks) := by
  refine ⟨Condition.accepted_parse, fun naming x s hshaped hs => ?_⟩
  have hscalars := scalars_operands hshaped
  have hspelled := spelled_statement hs
  obtain ⟨haligned, hparams⟩ := aligned_statement hshaped hs
  obtain ⟨hsql, hexpanded⟩ := haligned.expand hspelled
  have hcalm := haligned.calm_filled hspelled.calm
  have hunquoted : unquotedChars s.expand.sql.toList =
      (filled (x.pieces naming) s.params).flatMap Piece.unquoted := by
    rw [hsql, unquotedChars_chars hcalm]
  have hvalues : s.expand.params = x.operands.flatMap Operand.values := by
    rw [hexpanded, hparams, List.flatMap_assoc]
    exact List.flatMap_congr fun operand hmem => (Operand.filled (hscalars operand hmem)).1
  have hmarks : (s.params.map fun v => (Statement.fill v).1) =
      x.operands.flatMap Operand.marks := by
    rw [hparams, List.map_flatMap]
    exact List.flatMap_congr fun operand hmem => (Operand.filled (hscalars operand hmem)).2
  refine ⟨?_, ?_, hvalues, ?_⟩
  · rw [hunquoted, count_unquoted hcalm, haligned.markCount_filled, hexpanded]
  · rw [hvalues]
    intro v hv
    obtain ⟨operand, hmem, hv⟩ := List.mem_flatMap.mp hv
    exact hscalars operand hmem v hv
  · rw [hunquoted, haligned.unquoted_filled hspelled.calm, hmarks, hspelled.unquotedChars_eq]

end RowStatement

/-- Reads rows by an empty list and a range, under names that hold placeholders and quotes. -/
def crossedSelect : RowStatement :=
  .select { table := "t?", condition := ⟨[.field "a\x60?" .isIn (.list []),
    .any [.field "'b" .between (.range (.str "?") .null)]]⟩, orderBy := some "c?\\" }

/-- The list is gone, and the range keeps both of its bounds. -/
theorem RowStatement.placeholders_aligned_crossed :
    crossedSelect.WellShaped ∧ ∃ s, crossedSelect.statement {} = .ok s ∧
      (unquotedChars s.expand.sql.toList).count '?' = 2 ∧
      s.expand.params = [.str "?", .null] ∧
      unquotedChars s.expand.sql.toList =
        "SELECT * FROM  WHERE . IN (NULL) AND (. BETWEEN ? AND ?) ORDER BY  ASC".toList := by
  have hshaped : crossedSelect.WellShaped := rfl
  obtain ⟨hcount, -, hparams, htext⟩ :=
    placeholders_aligned.2 {} crossedSelect _ hshaped rfl
  refine ⟨hshaped, _, rfl, ?_, hparams, htext.trans (by decide)⟩
  rw [hcount, hparams]
  rfl

end ContentTables
