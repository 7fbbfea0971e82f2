import ContentTables.Proofs.Sql.Reading

/-!
# The clause of a condition means what the condition means

Every part of a clause is read as one operand: a comparison stands alone, and what joins several
parts encloses them (`clause?_means`). So parts may be joined in any context, and only the top level
of a condition goes without parentheses. A tree without a comparison has neither text nor
parameters (`isSome_clause?`, `params_eq_nil`).

`value?_compile` puts both together.
-/

namespace ContentTables

namespace Predicate

/-! ## Trees without a comparison -/

theorem isSome_groupClause? (parts : List String) :
    (groupClause? parts).isSome = !parts.isEmpty := by
  match parts with
  | [] => rfl
  | [_] => rfl
  | _ :: _ :: _ => rfl

theorem isSome_joined (connective : String) (parts : List String) :
    (joined connective parts).isSome = !parts.isEmpty := by
  cases parts <;> rfl

mutual

theorem isSome_clause? (table : Option String) :
    ∀ p : Predicate, (p.clause? table).isSome = p.hasField
  | .field .. => rfl
  | .group parts => by
    rw [clause?, hasField, isSome_groupClause?, isEmpty_clauses table parts, Bool.not_not]
  | .all parts => by
    rw [clause?, hasField, isSome_joined, isEmpty_clauses table parts, Bool.not_not]
  | .any parts => by
    rw [clause?, hasField, isSome_joined, isEmpty_clauses table parts, Bool.not_not]

theorem isEmpty_clauses (table : Option String) :
    ∀ ps : List Predicate, (clauses table ps).isEmpty = !anyHasField ps
  | [] => rfl
  | p :: ps => by
    have here := isSome_clause? table p
    have others := isEmpty_clauses table ps
    rw [clauses, anyHasField, ← here]
    cases p.clause? table with
    | none => exact others
    | some sql => rfl

end

theorem operandParams_ne_nil (operand : Operand) : operand.params ≠ [] := by
  cases operand <;> exact List.cons_ne_nil _ _

mutual

theorem params_eq_nil : ∀ {p : Predicate}, p.params = [] ↔ p.hasField = false
  | .field _ _ operand => by simp [params, hasField, operandParams_ne_nil operand]
  | .group parts => by rw [params, hasField]; exact paramsOf_eq_nil
  | .all parts => by rw [params, hasField]; exact paramsOf_eq_nil
  | .any parts => by rw [params, hasField]; exact paramsOf_eq_nil

theorem paramsOf_eq_nil : ∀ {ps : List Predicate}, paramsOf ps = [] ↔ anyHasField ps = false
  | [] => by simp [paramsOf, anyHasField]
  | p :: ps => by
    rw [paramsOf, anyHasField, List.append_eq_nil_iff, Bool.or_eq_false_iff]
    exact and_congr params_eq_nil paramsOf_eq_nil

end

/-! ## Trees with comparisons -/

section Meaning
variable {τ : Type} [Lattice τ] [BoundedOrder τ] {truth : Comparison → τ} {table : Option String}

theorem groupClause?_means {parts : List (Part τ)} {sql : String}
    (h : ∀ part ∈ parts, Means truth part.sql part.params part.value)
    (hs : groupClause? (parts.map (·.sql)) = some sql) :
    Means truth sql (parts.flatMap (·.params)) (allOf (parts.map (·.value))) := by
  match parts with
  | [] => cases hs
  | [part] =>
    cases hs
    simpa [allOf_singleton] using h part (by simp)
  | part :: next :: parts =>
    cases hs
    exact means_enclosed_allOf h

theorem joinedAnd_means {parts : List (Part τ)} {sql : String}
    (h : ∀ part ∈ parts, Means truth part.sql part.params part.value)
    (hs : joined " AND " (parts.map (·.sql)) = some sql) :
    Means truth sql (parts.flatMap (·.params)) (allOf (parts.map (·.value))) := by
  cases parts with
  | nil => cases hs
  | cons part parts =>
    cases hs
    exact means_enclosed_allOf h

theorem joinedOr_means {parts : List (Part τ)} {sql : String}
    (h : ∀ part ∈ parts, Means truth part.sql part.params part.value)
    (hs : joined " OR " (parts.map (·.sql)) = some sql) :
    Means truth sql (parts.flatMap (·.params)) (anyOf (parts.map (·.value))) := by
  cases parts with
  | nil => cases hs
  | cons part parts =>
    cases hs
    exact means_enclosed_anyOf h

mutual

theorem clause?_means : ∀ {p : Predicate} {sql : String}, everyField Operand.fits p = true →
    p.clause? table = some sql → Means truth sql p.params (p.pruned.value truth table)
  | .field column operator operand, sql, fits, hs => by
    cases hs
    exact means_field table column fits
  | .group parts, sql, fits, hs => by
    obtain ⟨read, h, texts, params, values⟩ := parts_mean fits
    rw [clause?, ← texts] at hs
    rw [Predicate.params, ← params, pruned, value, ← values]
    exact groupClause?_means h hs
  | .all parts, sql, fits, hs => by
    obtain ⟨read, h, texts, params, values⟩ := parts_mean fits
    rw [clause?, ← texts] at hs
    rw [Predicate.params, ← params, pruned, value, ← values]
    exact joinedAnd_means h hs
  | .any parts, sql, fits, hs => by
    obtain ⟨read, h, texts, params, values⟩ := parts_mean fits
    rw [clause?, ← texts] at hs
    rw [Predicate.params, ← params, pruned, value, ← values]
    exact joinedOr_means h hs

theorem parts_mean : ∀ {ps : List Predicate}, everyFieldOf Operand.fits ps = true →
    ∃ parts : List (Part τ), (∀ part ∈ parts, Means truth part.sql part.params part.value) ∧
      parts.map (·.sql) = clauses table ps ∧ parts.flatMap (·.params) = paramsOf ps ∧
      parts.map (·.value) = values truth table (prunedParts ps)
  | [], _ => ⟨[], by simp, rfl, rfl, rfl⟩
  | p :: ps, fits => by
    obtain ⟨here, others⟩ := Bool.and_eq_true_iff.1 fits
    obtain ⟨parts, h, texts, params, values⟩ := parts_mean others
    have hasClause := isSome_clause? table p
    cases hs : p.clause? table with
    | none =>
      rw [hs] at hasClause
      have noField : p.hasField = false := hasClause.symm
      refine ⟨parts, h, ?_, ?_, ?_⟩
      · rw [texts, clauses, hs]; rfl
      · rw [params, paramsOf, params_eq_nil.2 noField]; rfl
      · rw [values, prunedParts, noField]; rfl
    | some sql =>
      rw [hs] at hasClause
      have field : p.hasField = true := hasClause.symm
      refine ⟨⟨sql, p.params, p.pruned.value truth table⟩ :: parts, ?_, ?_, ?_, ?_⟩
      · intro part hp
        rcases List.mem_cons.1 hp with rfl | hp
        · exact clause?_means here hs
        · exact h part hp
      · rw [List.map_cons, texts, clauses, hs]; rfl
      · rw [List.flatMap_cons, params, paramsOf]
      · rw [List.map_cons, values, prunedParts, field]; rfl

end

end Meaning

end Predicate

/-! ## Conditions -/

namespace Condition

/-- The clause of a condition has the truth value of the condition without its empty combinations,
whatever the comparisons are worth, and it is empty exactly if the condition compares nothing. -/
theorem value?_compile (c : Condition) (table : Option String) (fitting : c.Fitting) :
    (∀ {τ : Type} [Lattice τ] [BoundedOrder τ] (truth : Comparison → τ),
      (c.compile table).value? truth = some (c.pruned.value truth table)) ∧
    ((c.compile table).sql = "" ↔ c.hasField = false) ∧
    ((c.compile table).params = [] ↔ c.hasField = false) := by
  have reading : ∀ {τ : Type} [Lattice τ] [BoundedOrder τ] (truth : Comparison → τ),
      (c.compile table).value? truth = some (c.pruned.value truth table) ∧
        ((c.compile table).sql = "" ↔ c.hasField = false) := by
    intro τ _ _ truth
    obtain ⟨parts, h, texts, params, values⟩ :=
      @Predicate.parts_mean τ _ _ truth table c.predicates fitting
    have noClause := Predicate.isEmpty_clauses table c.predicates
    unfold compile pruned Condition.value hasField
    rw [← texts] at noClause ⊢
    rw [← params, ← values]
    cases parts with
    | nil =>
      have none : Predicate.anyHasField c.predicates = false := by simpa using noClause.symm
      exact ⟨rfl, by simp [none]⟩
    | cons part parts =>
      have some : Predicate.anyHasField c.predicates = true := by simpa using noClause.symm
      have meaning := means_allOf h
      exact ⟨meaning.value?, iff_of_false meaning.ne_empty (by simp [some])⟩
  exact ⟨fun truth => (reading truth).1, (reading fun _ => true).2, Predicate.paramsOf_eq_nil⟩

/-- A range inside a group, a list beside it, and a combination of nothing. -/
theorem value?_compile_mixed :
    let c : Condition := ⟨[.all [], .any [.group [.field "a" .equal (.scalar .null),
      .field "b" .between (.range .null (.bool true))], .field "c?" .isIn (.list [.null])]]⟩
    c.Fitting ∧ ∀ truth : Comparison → Bool, (c.compile none).value? truth =
      some (truth ⟨none, "a", .equal, .scalar .null⟩ ⊓
        truth ⟨none, "b", .between, .range .null (.bool true)⟩ ⊔
          truth ⟨none, "c?", .isIn, .list [.null]⟩) := by
  intro c
  have fitting : c.Fitting := rfl
  refine ⟨fitting, fun truth => ?_⟩
  rw [(value?_compile c none fitting).1 truth]
  simp [c, pruned, Condition.value, Predicate.prunedParts, Predicate.pruned, Predicate.hasField,
    Predicate.anyHasField, Predicate.values, Predicate.value]

end Condition

end ContentTables
