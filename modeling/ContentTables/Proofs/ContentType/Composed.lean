import ContentTables.ContentType.Compose

/-!
# The tables of a content type

* `TypeDescriptor.exists_content_of_compose` : the content table is the first of the tables;
* `TypeDescriptor.table_of_compose` : each table is named after its role and the slug of the type;
* `TypeDescriptor.hasRole_of_compose` : a type has tables of all roles, but of comments only where
  they are on.
-/

namespace ContentTables

namespace TypeDescriptor

variable {filters : TableFilters} {d : TypeDescriptor} {tables : List ComposedTable}

theorem composeTable_eq_ok {role : TableRole} {schema : TableSchema} {t : ComposedTable}
    (h : d.composeTable filters role schema = .ok t) :
    t.role = role ∧ t.table = role.tableName d.slug := by
  unfold composeTable at h
  cases hfiltered : filters.apply ⟨role.tableName d.slug, role, d⟩ schema with
  | error e =>
    simp only [hfiltered] at h
    exact absurd h nofun
  | ok filtered =>
    simp only [hfiltered] at h
    cases h
    exact ⟨rfl, rfl⟩

theorem composeAll_eq_ok {derived : List (TableRole × TableSchema)}
    (h : d.composeAll filters derived = .ok tables) :
    tables.map (·.role) = derived.map Prod.fst ∧
      ∀ t ∈ tables, t.table = t.role.tableName d.slug := by
  induction derived generalizing tables with
  | nil =>
    cases h
    exact ⟨rfl, nofun⟩
  | cons first rest ih =>
    obtain ⟨role, schema⟩ := first
    unfold composeAll at h
    cases hfirst : d.composeTable filters role schema with
    | error e =>
      rw [hfirst] at h
      exact absurd h nofun
    | ok t =>
      rw [hfirst] at h
      cases hrest : d.composeAll filters rest with
      | error e =>
        rw [hrest] at h
        exact absurd h nofun
      | ok ts =>
        rw [hrest] at h
        cases h
        obtain ⟨hrole, htable⟩ := composeTable_eq_ok hfirst
        obtain ⟨hroles, htables⟩ := ih hrest
        refine ⟨by rw [List.map_cons, List.map_cons, hrole, hroles], fun u hu => ?_⟩
        rcases List.mem_cons.mp hu with rfl | hu
        · rw [htable, hrole]
        · exact htables u hu

theorem composeAll_of_compose (h : d.compose filters = .ok tables) :
    d.composeAll filters d.derivedTables = .ok tables := by
  unfold compose at h
  split at h
  · exact absurd h nofun
  · exact h

/-- The content table comes first. -/
theorem exists_content_of_compose (h : d.compose filters = .ok tables) :
    ∃ t rest, tables = t :: rest ∧ t.role = .content := by
  have hroles := (composeAll_eq_ok (composeAll_of_compose h)).1
  cases tables with
  | nil => exact nomatch hroles
  | cons t rest => exact ⟨t, rest, rfl, (List.cons.inj hroles).1⟩

theorem table_of_compose (h : d.compose filters = .ok tables) {t : ComposedTable} (ht : t ∈ tables) :
    t.table = t.role.tableName d.slug :=
  (composeAll_eq_ok (composeAll_of_compose h)).2 t ht

theorem hasRole_of_compose (h : d.compose filters = .ok tables) (role : TableRole) :
    (∃ t ∈ tables, t.role = role) ↔ (role = .comments → d.comments = true) := by
  have hroles := (composeAll_eq_ok (composeAll_of_compose h)).1
  rw [← List.mem_map, hroles]
  unfold derivedTables
  cases hcomments : d.comments with
  | false => cases role <;> simp
  | true => cases role <;> simp

end TypeDescriptor

end ContentTables
