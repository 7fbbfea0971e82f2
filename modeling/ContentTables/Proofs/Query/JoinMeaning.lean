import ContentTables.Proofs.Query.JoinText
import ContentTables.Proofs.Query.Restricted
import ContentTables.Proofs.Sql.ClauseMeaning

/-!
# What a join asks for

The condition of a join is a conjunction of the conditions of its tables, those that compare nothing
left out. Its text does not depend on the operands, so it can be read with any that have the right
shape, whatever operands the tables came with.

* `Condition.form`, `Condition.Refits` : a condition without its operands, and conditions that
  differ in nothing but the operands, which fit;
* `Condition.means_compile` : the clause of one table is read as one operand;
* `JoinQuery.value?_joinedClause` : the clause of all tables is true where every condition is;
* `JoinQuery.Asked` : what is read from a statement agrees with the tables: the columns, how the
  tables are joined, the parameters, and what the condition is worth;
* `JoinQuery.statement_asked` : a join fails only without tables, and its statement is as asked.
-/

namespace ContentTables

/-! ## Conditions with other operands -/

/-- An operand of the shape that the operator takes. -/
def Operator.sampleOperand : Operator → Operand
  | .isIn | .notIn => .list []
  | .between => .range .null .null
  | _ => .scalar .null

namespace Predicate

mutual

def form : Predicate → Predicate
  | .field column operator _ => .field column operator operator.sampleOperand
  | .group parts => .group (forms parts)
  | .all parts => .all (forms parts)
  | .any parts => .any (forms parts)

def forms : List Predicate → List Predicate
  | [] => []
  | p :: ps => p.form :: forms ps

end

mutual

theorem clause?_form (table : Option String) :
    ∀ p : Predicate, p.form.clause? table = p.clause? table
  | .field .. => rfl
  | .group parts => by rw [form, clause?, clause?, clauses_forms table parts]
  | .all parts => by rw [form, clause?, clause?, clauses_forms table parts]
  | .any parts => by rw [form, clause?, clause?, clauses_forms table parts]

theorem clauses_forms (table : Option String) :
    ∀ ps : List Predicate, clauses table (forms ps) = clauses table ps
  | [] => rfl
  | p :: ps => by rw [forms, clauses, clauses, clause?_form table p, clauses_forms table ps]

end

mutual

theorem form_form : ∀ p : Predicate, p.form.form = p.form
  | .field .. => rfl
  | .group parts => by rw [form, form, forms_forms parts]
  | .all parts => by rw [form, form, forms_forms parts]
  | .any parts => by rw [form, form, forms_forms parts]

theorem forms_forms : ∀ ps : List Predicate, forms (forms ps) = forms ps
  | [] => rfl
  | p :: ps => by rw [forms, forms, form_form p, forms_forms ps]

end

mutual

theorem everyField_form : ∀ p : Predicate, everyField Operand.fits p.form = true
  | .field _ operator _ => by cases operator <;> rfl
  | .group parts => everyFieldOf_forms parts
  | .all parts => everyFieldOf_forms parts
  | .any parts => everyFieldOf_forms parts

theorem everyFieldOf_forms : ∀ ps : List Predicate, everyFieldOf Operand.fits (forms ps) = true
  | [] => rfl
  | p :: ps => by
    rw [forms, everyFieldOf, everyField_form p, everyFieldOf_forms ps]
    rfl

end

theorem prunedParts_of_noField {ps : List Predicate} (h : anyHasField ps = false) :
    prunedParts ps = [] := by
  induction ps with
  | nil => rfl
  | cons p ps ih =>
    obtain ⟨hp, hps⟩ := Bool.or_eq_false_iff.mp h
    rw [prunedParts, hp, if_neg Bool.false_ne_true, ih hps]

end Predicate

namespace Condition

/-- The condition with an operand that fits in the place of each of its own. -/
def form (c : Condition) : Condition := ⟨Predicate.forms c.predicates⟩

/-- The other condition has the same columns, operators and combinations, and its operands fit. -/
def Refits (c d : Condition) : Prop := c.form = d.form ∧ d.Fitting

theorem Fitting.refits {c : Condition} (h : c.Fitting) : c.Refits c := ⟨rfl, h⟩

theorem refits_form (c : Condition) : c.Refits c.form := by
  refine ⟨?_, Predicate.everyFieldOf_forms c.predicates⟩
  exact congrArg Condition.mk (Predicate.forms_forms c.predicates).symm

theorem sql_compile_form (c : Condition) (table : Option String) :
    (c.form.compile table).sql = (c.compile table).sql := by
  unfold compile form
  rw [Predicate.clauses_forms]

theorem Refits.sql_compile {c d : Condition} (h : c.Refits d) (table : Option String) :
    (c.compile table).sql = (d.compile table).sql := by
  rw [← sql_compile_form c, h.1, sql_compile_form d]

section Meaning
variable {τ : Type} [Lattice τ] [BoundedOrder τ] {truth : Comparison → τ}

theorem means_compile {c : Condition} (fitting : c.Fitting) (hfield : c.hasField = true)
    (table : Option String) :
    Means truth (c.compile table).sql (c.compile table).params (c.pruned.value truth table) := by
  obtain ⟨parts, h, texts, params, values⟩ :=
    @Predicate.parts_mean τ _ _ truth table c.predicates fitting
  have hclauses := Predicate.isEmpty_clauses table c.predicates
  have hfield : Predicate.anyHasField c.predicates = true := hfield
  unfold compile pruned Condition.value
  rw [← texts] at hclauses ⊢
  rw [← params, ← values]
  cases parts with
  | nil =>
    rw [hfield] at hclauses
    exact nomatch hclauses
  | cons part parts => exact means_allOf h

/-- A condition that compares nothing accepts every row. -/
theorem value_pruned_of_noField {c : Condition} (hfield : c.hasField = false)
    (table : Option String) : c.pruned.value truth table = ⊤ := by
  unfold pruned Condition.value
  rw [Predicate.prunedParts_of_noField hfield]
  rfl

end Meaning

end Condition

/-! ## The condition of a join -/

namespace JoinTable

/-- The table with a condition of the same form, the operands of which fit. -/
def Refits (t u : JoinTable) : Prop :=
  ∃ condition, t.condition.Refits condition ∧ u = { t with condition }

theorem Refits.fitting {t u : JoinTable} (h : t.Refits u) : u.condition.Fitting := by
  obtain ⟨condition, hrefits, rfl⟩ := h
  exact hrefits.2

theorem refits_self {t : JoinTable} (h : t.condition.Fitting) : t.Refits t := ⟨_, h.refits, rfl⟩

theorem forall₂_refits_form (ts : List JoinTable) :
    List.Forall₂ Refits ts (ts.map fun t => { t with condition := t.condition.form }) := by
  rw [List.forall₂_map_right_iff, List.forall₂_same]
  exact fun t _ => ⟨_, t.condition.refits_form, rfl⟩

end JoinTable

namespace JoinQuery

section Meaning
variable {τ : Type} [Lattice τ] [BoundedOrder τ] {truth : Comparison → τ} {naming : TableNaming}
  {ts : List JoinTable}

/-- What is true anyway may be left out of a conjunction. -/
theorem allOf_filter {ι : Type} {keep : ι → Bool} {value : ι → τ} {items : List ι}
    (h : ∀ i ∈ items, keep i = false → value i = ⊤) :
    allOf ((items.filter keep).map value) = allOf (items.map value) := by
  induction items with
  | nil => rfl
  | cons i items ih =>
    obtain ⟨hi, hitems⟩ := List.forall_mem_cons.mp h
    rw [List.map_cons, allOf_cons, ← ih hitems]
    cases hkeep : keep i with
    | true => rw [List.filter_cons_of_pos hkeep, List.map_cons, allOf_cons]
    | false =>
      rw [List.filter_cons_of_neg (by simp [hkeep]), hi hkeep, top_inf_eq]

theorem filter_clauses (ts : List JoinTable) (naming : TableNaming) :
    (ts.map (·.clause naming)).filter (fun c => !c.isEmpty) =
      (ts.filter (·.condition.hasField)).map (·.clause naming) := by
  rw [List.filter_map]
  congr 1
  refine List.filter_congr fun t _ => ?_
  show (!(t.condition.compile _).isEmpty) = _
  rw [Condition.isEmpty_compile, Bool.not_not]

theorem params_joinedClause (ts : List JoinTable) (naming : TableNaming) :
    (joinedClause (ts.map (·.clause naming))).params =
      ts.flatMap fun t => (t.clause naming).params := by
  show ((ts.map (·.clause naming)).filter fun c => !c.isEmpty).flatMap (·.params) = _
  rw [filter_clauses, List.flatMap_map]
  induction ts with
  | nil => rfl
  | cons t ts ih =>
    rw [List.flatMap_cons, ← ih, List.filter_cons]
    cases hfield : t.condition.hasField with
    | true => rw [if_pos rfl, List.flatMap_cons]
    | false =>
      have hparams : (t.clause naming).params = [] := Predicate.paramsOf_eq_nil.mpr hfield
      rw [if_neg Bool.false_ne_true, hparams, List.nil_append]

theorem intercalate_ne_empty {separator text : String} {texts : List String} (h : text ≠ "") :
    separator.intercalate (text :: texts) ≠ "" := by
  cases texts with
  | nil => rwa [String.intercalate_singleton]
  | cons other texts =>
    rw [String.intercalate_cons_cons, ne_eq, String.append_eq_empty_iff,
      String.append_eq_empty_iff]
    exact fun hempty => h hempty.1.1

theorem isEmpty_joinedClause (ts : List JoinTable) (naming : TableNaming) :
    (joinedClause (ts.map (·.clause naming))).isEmpty = true ↔
      ∀ t ∈ ts, t.condition.hasField = false := by
  have hclauses := filter_clauses ts naming
  have hsql : (joinedClause (ts.map (·.clause naming))).sql =
      " AND ".intercalate ((ts.filter (·.condition.hasField)).map fun t =>
        (t.clause naming).sql) := by
    unfold joinedClause
    simp only [hclauses, List.map_map]
    rfl
  rw [Clause.isEmpty, beq_iff_eq, hsql]
  cases hfields : ts.filter (·.condition.hasField) with
  | nil => exact iff_of_true rfl fun t ht => by simpa using List.filter_eq_nil_iff.mp hfields t ht
  | cons t others =>
    have hmem : t ∈ ts.filter (·.condition.hasField) := hfields ▸ List.mem_cons_self
    obtain ⟨ht, hfield⟩ := List.mem_filter.mp hmem
    have hfirst : (t.clause naming).sql ≠ "" := by
      have hempty : ((t.clause naming).sql == "") = !t.condition.hasField :=
        Condition.isEmpty_compile t.condition (some (t.physical naming))
      rw [hfield] at hempty
      exact beq_eq_false_iff_ne.mp hempty
    refine iff_of_false (intercalate_ne_empty hfirst) fun hnone => ?_
    exact Bool.false_ne_true ((hnone t ht).symm.trans hfield)

/-- The clause of a join is true where the conditions of all tables are, each over its own table. -/
theorem value?_joinedClause (fitting : ∀ t ∈ ts, t.condition.Fitting) :
    (joinedClause (ts.map (·.clause naming))).value? truth =
      some (allOf (ts.map fun t => t.condition.pruned.value truth (some (t.physical naming)))) := by
  let part : JoinTable → Part τ := fun t =>
    ⟨(t.clause naming).sql, (t.clause naming).params,
      t.condition.pruned.value truth (some (t.physical naming))⟩
  have hmeans : ∀ p ∈ (ts.filter (·.condition.hasField)).map part,
      Means truth p.sql p.params p.value := by
    intro p hp
    obtain ⟨t, ht, rfl⟩ := List.mem_map.mp hp
    obtain ⟨hmem, hfield⟩ := List.mem_filter.mp ht
    exact Condition.means_compile (fitting t hmem) hfield _
  have hclause : joinedClause (ts.map (·.clause naming)) =
      ⟨" AND ".intercalate (((ts.filter (·.condition.hasField)).map part).map (·.sql)),
        ((ts.filter (·.condition.hasField)).map part).flatMap (·.params)⟩ := by
    unfold joinedClause
    simp only [filter_clauses, List.map_map, List.flatMap_map]
    rfl
  have hvalue : allOf (ts.map fun t => (part t).value) =
      allOf (((ts.filter (·.condition.hasField)).map part).map (·.value)) := by
    rw [List.map_map]
    exact (allOf_filter fun t _ hfield => Condition.value_pruned_of_noField hfield _).symm
  rw [hclause]
  refine Eq.trans ?_ (congrArg some hvalue.symm)
  generalize (ts.filter (·.condition.hasField)).map part = parts at hmeans
  cases parts with
  | nil => rfl
  | cons p parts => exact (means_allOf hmeans).value?

end Meaning

/-- Refitting the conditions leaves the text of the clause as it is. -/
theorem sql_joinedClause_of_refits {naming : TableNaming} {ts us : List JoinTable}
    (h : List.Forall₂ JoinTable.Refits ts us) : (joinedClause (ts.map (·.clause naming))).sql =
      (joinedClause (us.map (·.clause naming))).sql := by
  have hsql : ∀ clauses : List Clause, (joinedClause clauses).sql =
      " AND ".intercalate ((clauses.map (·.sql)).filter (!· == "")) := by
    intro clauses
    rw [List.filter_map]
    rfl
  have hsame : ts.map (fun t => (t.clause naming).sql) = us.map fun u => (u.clause naming).sql := by
    rw [← List.forall₂_eq_eq_eq, List.forall₂_map_left_iff, List.forall₂_map_right_iff]
    refine h.imp ?_
    rintro t u ⟨condition, hrefits, rfl⟩
    exact hrefits.sql_compile _
  rw [hsql, hsql, List.map_map, List.map_map]
  exact congrArg (fun texts => " AND ".intercalate (texts.filter (!· == ""))) hsame

/-! ## The statement -/

theorem condition_eq_none (c : Clause) :
    (if c.isEmpty then none else some c.sql) = none ↔ c.isEmpty = true := by simp

theorem condition_getD (c : Clause) : (if c.isEmpty then none else some c.sql).getD "" = c.sql := by
  cases hempty : c.isEmpty with
  | true => exact (beq_iff_eq.mp hempty).symm
  | false => rfl

/-- What is read from a statement, and its parameters, are what the tables ask for. The condition is
read with parameters that fit, which are those of the tables wherever theirs do. -/
structure Asked (naming : TableNaming) (direction : JoinDirection) (anchor : JoinTable)
    (others : List JoinTable) (text : JoinText) (parameters : List Json) : Prop where
  selected : text.selected = (anchor :: others).flatMap (·.saidColumns naming)
  source : text.anchor = anchor.physical naming
  joined : text.steps = List.zipWith (saidStep direction naming) (anchor :: others) others
  params : parameters = (anchor :: others).flatMap fun t => (t.clause naming).params
  unrestricted : text.condition = none ↔ ∀ t ∈ anchor :: others, t.condition.hasField = false
  refits : ∃ ts, List.Forall₂ JoinTable.Refits (anchor :: others) ts
  value : ∀ ts, List.Forall₂ JoinTable.Refits (anchor :: others) ts →
    ∀ {τ : Type} [Lattice τ] [BoundedOrder τ] (truth : Comparison → τ),
      Clause.value? truth
          ⟨text.condition.getD "", ts.flatMap fun t => (t.clause naming).params⟩ =
        some (allOf (ts.map fun t => t.condition.pruned.value truth (some (t.physical naming))))

theorem value?_condition {τ : Type} [Lattice τ] [BoundedOrder τ] (truth : Comparison → τ)
    {naming : TableNaming} {tables ts : List JoinTable}
    (h : List.Forall₂ JoinTable.Refits tables ts) :
    Clause.value? truth ⟨(joinedClause (tables.map (·.clause naming))).sql,
        ts.flatMap fun t => (t.clause naming).params⟩ =
      some (allOf (ts.map fun t => t.condition.pruned.value truth (some (t.physical naming)))) := by
  have fitting : ∀ t ∈ ts, t.condition.Fitting :=
    ((List.forall₂_and_left ts tables).mp (h.flip.imp fun _ _ hrefits =>
      ⟨JoinTable.Refits.fitting hrefits, hrefits⟩)).1
  rw [sql_joinedClause_of_refits h, ← params_joinedClause]
  exact value?_joinedClause fitting

/-- A join without tables is refused, and nothing else. What the statement of any other says is what
its tables ask for: their columns, each table joined to the one before it, and their conditions. -/
theorem statement_asked (q : JoinQuery) (naming : TableNaming) :
    (∀ e, q.statement naming = .error e ↔
      q.tables = [] ∧ e = .validation "join requires at least one table") ∧
    ∀ anchor others, q.tables = anchor :: others → ∃ s text, q.statement naming = .ok s ∧
      readJoin? s.sql = some text ∧ Asked naming q.direction anchor others text s.params := by
  refine ⟨fun e => ?_, fun anchor others htables => ?_⟩
  · unfold statement
    cases q.tables with
    | nil => exact ⟨fun h => ⟨rfl, (Except.error.inj h).symm⟩, fun h => congrArg _ h.2.symm⟩
    | cons anchor others => exact ⟨nofun, fun h => nomatch h.1⟩
  · obtain ⟨s, hs, hparams, hread⟩ := readJoin?_statement htables naming
    refine ⟨s, _, hs, hread, ?_⟩
    rw [htables] at hparams ⊢
    rw [params_joinedClause] at hparams
    constructor
    case selected | source | joined => rfl
    case params => exact hparams
    case unrestricted => rw [condition_eq_none, isEmpty_joinedClause]
    case refits => exact ⟨_, JoinTable.forall₂_refits_form _⟩
    case value =>
      intro ts hts τ _ _ truth
      rw [condition_getD]
      exact value?_condition truth hts

/-- Two tables with alternatives, one of them named like the end of the columns, and a table with a
combination of nothing. -/
theorem statement_asked_alternatives :
    let posts : JoinTable := {
      table := "a\x60 FROM \x60b", relation := "id"
      condition := ⟨[.any [.field "x" .equal (.scalar .null), .field "y" .isIn (.list [.null])]]⟩ }
    let details : JoinTable := {
      table := "m", columns := some ["k", "v"], relation := "post_id"
      condition := ⟨[.any [.field "k" .equal (.scalar .null), .field "v" .like (.scalar .null)]]⟩ }
    let users : JoinTable :=
      { table := "u", columns := some [], relation := "uid", condition := ⟨[.all []]⟩ }
    let q : JoinQuery := { direction := .left, tables := [posts, details, users] }
    ∃ s text, q.statement {} = .ok s ∧ readJoin? s.sql = some text ∧
      text.selected = [("a\x60 FROM \x60b", none), ("m", some "k"), ("m", some "v")] ∧
      text.anchor = "a\x60 FROM \x60b" ∧
      text.steps = [⟨.left, "m", ("a\x60 FROM \x60b", "id"), ("m", "post_id")⟩,
        ⟨.left, "u", ("m", "post_id"), ("u", "uid")⟩] ∧
      s.params = [.null, .arr [.null], .null, .null] ∧
      ∀ truth : Comparison → Bool, Clause.value? truth ⟨text.condition.getD "", s.params⟩ = some
        ((truth ⟨some "a\x60 FROM \x60b", "x", .equal, .scalar .null⟩ ⊔
            truth ⟨some "a\x60 FROM \x60b", "y", .isIn, .list [.null]⟩) ⊓
          (truth ⟨some "m", "k", .equal, .scalar .null⟩ ⊔
            truth ⟨some "m", "v", .like, .scalar .null⟩)) := by
  intro posts details users q
  obtain ⟨s, text, hs, hread, asked⟩ := (statement_asked q {}).2 posts [details, users] rfl
  have hrefits : List.Forall₂ JoinTable.Refits q.tables q.tables := by
    rw [List.forall₂_same]
    simp only [q, List.forall_mem_cons]
    exact ⟨JoinTable.refits_self rfl, JoinTable.refits_self rfl, JoinTable.refits_self rfl, nofun⟩
  refine ⟨s, text, hs, hread, asked.selected, asked.source, asked.joined, asked.params,
    fun truth => ?_⟩
  rw [asked.params]
  refine (asked.value q.tables hrefits truth).trans ?_
  simp [q, posts, details, users, JoinTable.physical, TableNaming.physical, Condition.pruned,
    Condition.value, Predicate.prunedParts, Predicate.pruned, Predicate.hasField,
    Predicate.anyHasField, Predicate.values, Predicate.value]

end JoinQuery

end ContentTables
