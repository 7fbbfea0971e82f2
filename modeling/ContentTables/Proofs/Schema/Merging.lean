import ContentTables.Schema.Diff
import Mathlib.Data.List.Perm.Subperm

/-!
# Merging a difference

* `OrderedMap.get?_insertAll`, `get?_replaceAll`, `get?_eraseAll`, `get?_filter` : what each change
  of many names leaves under a name;
* `OrderedMap.names_perm_iff`, `OrderedMap.sameContent_iff` : two maps have the same names, or the
  same content, where they have it under each name;
* `TableSchema.get?_merge`, `get?_merge_diff` : a merged schema, name by name. After the difference
  to a desired schema each desired column is there, and no other;
* `TableSchema.isEmpty_diff_iff` : there is no difference exactly where the content is the same;
* `TableSchema.fault?_merge_diff` : a merged schema is as valid as the desired one.
-/

namespace ContentTables

namespace OrderedMap

variable {α : Type}

theorem get?_insertAll (m n : OrderedMap α) (key : String) :
    (m.insertAll n.entries).get? key = (n.get? key).or (m.get? key) := by
  obtain ⟨entries, distinct⟩ := n
  show (m.insertAll entries).get? key = (entries.lookup key).or (m.get? key)
  induction entries generalizing m with
  | nil => rfl
  | cons e rest ih =>
    obtain ⟨name, value⟩ := e
    obtain ⟨hfresh, hrest⟩ := List.nodup_cons.mp distinct
    show ((m.insert name value).insertAll rest).get? key = _
    rw [ih _ hrest, get?_insert, lookup_cons_eq]
    by_cases h : key = name
    · subst h
      have hnone : rest.lookup key = none := by
        rw [← Option.not_isSome_iff_eq_none, lookup_isSome_iff]
        exact hfresh
      rw [hnone, if_pos rfl, if_pos rfl]
      rfl
    · rw [if_neg h, if_neg h]

theorem get?_replace (m : OrderedMap α) (name key : String) (value : α) :
    (m.replace name value).get? key =
      if key = name then (m.get? key).map fun _ => value else m.get? key := by
  unfold replace
  by_cases h : key = name
  · subst h
    cases hvalue : m.get? key with
    | none => simp [contains, hvalue]
    | some v => simp [contains, hvalue, get?_insert]
  · rw [if_neg h]
    split
    · rw [get?_insert, if_neg h]
    · rfl

theorem get?_replaceAll (m n : OrderedMap α) (key : String) :
    (m.replaceAll n.entries).get? key = (m.get? key).map fun v => (n.get? key).getD v := by
  obtain ⟨entries, distinct⟩ := n
  show (m.replaceAll entries).get? key = (m.get? key).map fun v => (entries.lookup key).getD v
  induction entries generalizing m with
  | nil => exact Option.map_id'.symm
  | cons e rest ih =>
    obtain ⟨name, value⟩ := e
    obtain ⟨hfresh, hrest⟩ := List.nodup_cons.mp distinct
    show ((m.replace name value).replaceAll rest).get? key = _
    rw [ih _ hrest, get?_replace, lookup_cons_eq]
    by_cases h : key = name
    · subst h
      have hnone : rest.lookup key = none := by
        rw [← Option.not_isSome_iff_eq_none, lookup_isSome_iff]
        exact hfresh
      rw [hnone, if_pos rfl, if_pos rfl, Option.map_map]
      rfl
    · rw [if_neg h, if_neg h]

theorem get?_eraseAll (m : OrderedMap α) (names : List String) (key : String) :
    (m.eraseAll names).get? key = if key ∈ names then none else m.get? key := by
  induction names generalizing m with
  | nil => rfl
  | cons name rest ih =>
    show ((m.erase name).eraseAll rest).get? key = _
    rw [ih, get?_erase]
    by_cases h : key = name
    · simp [h]
    · simp [h]

theorem get?_filter (m : OrderedMap α) (p : String → α → Bool) (key : String) :
    (m.filter p).get? key = (m.get? key).filter (p key) := by
  apply Option.ext
  intro value
  rw [get?_eq_some_iff, Option.filter_eq_some_iff, get?_eq_some_iff]
  exact List.mem_filter

theorem isEmpty_iff {m : OrderedMap α} : m.isEmpty = true ↔ ∀ name, m.get? name = none := by
  unfold isEmpty
  rw [List.isEmpty_iff, List.eq_nil_iff_forall_not_mem]
  constructor
  · exact fun h name => Option.eq_none_iff_forall_ne_some.mpr fun v hv =>
      h (name, v) (get?_eq_some_iff.mp hv)
  · intro h e he
    exact nomatch (h e.1).symm.trans (get?_eq_some_iff.mpr he)

theorem length_names (m : OrderedMap α) : m.names.length = m.size := List.length_map _

theorem isSome_get?_iff {m : OrderedMap α} {name : String} :
    (m.get? name).isSome = true ↔ name ∈ m.names := contains_iff

/-- As many names on both sides, all of the left ones on the right. -/
theorem names_perm_of_subset {m n : OrderedMap α} (hsubset : m.names ⊆ n.names)
    (hsize : m.size = n.size) : m.names.Perm n.names := by
  have hlength : n.names.length = m.names.length := by rw [length_names, length_names, hsize]
  exact (List.Nodup.subperm m.distinct hsubset).perm_of_length_le (Nat.le_of_eq hlength)

theorem names_perm_iff {m n : OrderedMap α} :
    m.names.Perm n.names ↔ ∀ name, (m.get? name).isSome = (n.get? name).isSome := by
  refine (List.perm_ext_iff_of_nodup m.distinct n.distinct).trans (forall_congr' fun name => ?_)
  rw [Bool.eq_iff_iff, isSome_get?_iff, isSome_get?_iff]
  rfl

theorem sameContent_iff {eq : α → α → Bool} {m n : OrderedMap α} :
    m.sameContent eq n = true ↔
      ∀ name, Option.Rel (fun v w => eq v w = true) (m.get? name) (n.get? name) := by
  unfold sameContent
  rw [Bool.and_eq_true, beq_iff_eq, List.all_eq_true]
  constructor
  · rintro ⟨hsize, hall⟩ name
    have hfound : ∀ key v, m.get? key = some v → ∃ w, n.get? key = some w ∧ eq v w = true :=
      fun key v hv => (Option.any_eq_true _ _).mp (hall (key, v) (get?_eq_some_iff.mp hv))
    have hsubset : m.names ⊆ n.names := by
      intro key hkey
      obtain ⟨v, hv⟩ := Option.isSome_iff_exists.mp (isSome_get?_iff.mpr hkey)
      obtain ⟨w, hw, _⟩ := hfound key v hv
      exact isSome_get?_iff.mp (Option.isSome_iff_exists.mpr ⟨w, hw⟩)
    have hsome := names_perm_iff.mp (names_perm_of_subset hsubset hsize) name
    cases hv : m.get? name with
    | some v =>
      obtain ⟨w, hw, h⟩ := hfound name v hv
      rw [hw]
      exact .some h
    | none =>
      rw [hv] at hsome
      rw [Option.isNone_iff_eq_none.mp (Option.isSome_eq_false_iff.mp hsome.symm)]
      exact .none
  · intro h
    have hperm : m.names.Perm n.names := by
      refine names_perm_iff.mpr fun name => ?_
      have hrel := h name
      generalize m.get? name = v, n.get? name = w at hrel
      cases hrel <;> rfl
    refine ⟨?_, fun e he => ?_⟩
    · rw [← length_names, ← length_names, hperm.length_eq]
    · have hrel := h e.1
      rw [get?_eq_some_iff.mpr he] at hrel
      show Option.any (eq e.2) (n.get? e.1) = true
      generalize n.get? e.1 = w at hrel
      cases hrel with
      | some hvw => exact hvw

end OrderedMap

namespace TableSchema

open OrderedMap

theorem get?_merge (stored : TableSchema) (d : SchemaDiff) (key : String) :
    (stored.merge d).get? key =
      if key ∈ d.dropped then none
      else ((d.added.get? key).or (stored.get? key)).map fun c => (d.changed.get? key).getD c := by
  unfold merge
  rw [get?_eraseAll, get?_replaceAll, get?_insertAll]

/-- A desired column, as it was stored where that says the same. -/
def mergedColumn (stored : Option Column) (desired : Column) : Column :=
  match stored with
  | some current => if current.sameDefinition desired then current else desired
  | none => desired

theorem get?_added_diff (stored desired : TableSchema) (key : String) :
    (stored.diff desired).added.get? key =
      (desired.get? key).filter fun _ => !stored.contains key := get?_filter ..

theorem get?_changed_diff (stored desired : TableSchema) (key : String) :
    (stored.diff desired).changed.get? key =
      (desired.get? key).filter fun c => (stored.get? key).any fun current =>
        !current.sameDefinition c := get?_filter ..

theorem mem_dropped_diff {stored desired : TableSchema} {key : String} :
    key ∈ (stored.diff desired).dropped ↔
      (stored.get? key).isSome ∧ desired.get? key = none := by
  show key ∈ stored.names.filter (fun name => !desired.contains name) ↔ _
  rw [List.mem_filter, ← contains_iff]
  simp [contains]

theorem get?_merge_diff (stored desired : TableSchema) (key : String) :
    (stored.merge (stored.diff desired)).get? key =
      (desired.get? key).map (mergedColumn (stored.get? key)) := by
  rw [get?_merge, get?_added_diff, get?_changed_diff]
  cases hd : desired.get? key with
  | none =>
    cases hs : stored.get? key with
    | none => simp
    | some current => simp [mem_dropped_diff, hd, hs]
  | some c =>
    have hkept : key ∉ (stored.diff desired).dropped := by simp [mem_dropped_diff, hd]
    rw [if_neg hkept]
    cases hs : stored.get? key with
    | none => simp [contains, hs, mergedColumn]
    | some current =>
      cases hsame : current.sameDefinition c with
      | true => simp [contains, hs, hsame, mergedColumn, Option.filter]
      | false => simp [contains, hs, hsame, mergedColumn, Option.filter]

/-! ## Content -/

theorem sameContent_iff {s t : TableSchema} : s.sameContent t = true ↔
    ∀ name, Option.Rel (fun c d => c.sameDefinition d = true) (s.get? name) (t.get? name) :=
  OrderedMap.sameContent_iff

theorem exists_of_sameContent {s t : TableSchema} (h : s.sameContent t = true) {name : String}
    {c : Column} (hget : s.get? name = some c) :
    ∃ d, t.get? name = some d ∧ c.sameDefinition d = true := by
  have hrel := sameContent_iff.mp h name
  rw [hget] at hrel
  generalize t.get? name = o at hrel
  cases hrel with
  | some hcd => exact ⟨_, rfl, hcd⟩

theorem get?_eq_none_of_sameContent {s t : TableSchema} (h : s.sameContent t = true)
    {name : String} (hget : s.get? name = none) : t.get? name = none := by
  have hrel := sameContent_iff.mp h name
  rw [hget] at hrel
  generalize t.get? name = o at hrel
  cases hrel
  rfl

/-- There is no difference exactly where the content is the same. -/
theorem isEmpty_diff_iff {stored desired : TableSchema} :
    (stored.diff desired).isEmpty = true ↔ stored.sameContent desired = true := by
  unfold SchemaDiff.isEmpty
  rw [Bool.and_eq_true, Bool.and_eq_true, OrderedMap.isEmpty_iff, OrderedMap.isEmpty_iff, List.isEmpty_iff,
    List.eq_nil_iff_forall_not_mem, sameContent_iff]
  simp only [get?_added_diff, get?_changed_diff, mem_dropped_diff]
  rw [← forall_and, ← forall_and]
  refine forall_congr' fun name => ?_
  cases hs : stored.get? name with
  | none => cases desired.get? name <;> simp [contains, hs, Option.filter]
  | some c => cases desired.get? name <;> simp [contains, hs, Option.filter]

/-! ## Validity -/

theorem mem_namesWhere {s : TableSchema} {p : Column → Bool} {name : String} :
    name ∈ s.namesWhere p ↔ ∃ c, s.get? name = some c ∧ p c = true := by
  unfold namesWhere namesOf
  rw [List.mem_map]
  constructor
  · rintro ⟨⟨n, c⟩, hmem, rfl⟩
    obtain ⟨hmem, hp⟩ := List.mem_filter.mp hmem
    exact ⟨c, get?_eq_some_iff.mpr hmem, hp⟩
  · rintro ⟨c, hget, hp⟩
    exact ⟨(name, c), List.mem_filter.mpr ⟨get?_eq_some_iff.mp hget, hp⟩, rfl⟩

theorem nodup_namesWhere (s : TableSchema) (p : Column → Bool) : (s.namesWhere p).Nodup :=
  s.distinct.sublist (List.filter_sublist.map Prod.fst)

theorem validate_eq_ok_iff {s : TableSchema} : s.validate = .ok () ↔ s.fault? = none := by
  unfold validate
  cases s.fault? with
  | none => exact ⟨fun _ => rfl, fun _ => rfl⟩
  | some fault => exact ⟨nofun, nofun⟩

theorem fault?_eq_none_iff {s : TableSchema} :
    s.fault? = none ↔ (s.namesWhere (·.primary)).length ≤ 1 ∧
      ∀ name c, s.get? name = some c → columnFault? name c = none := by
  unfold fault?
  simp only
  constructor
  · intro h
    split at h
    · exact absurd h nofun
    · rename_i hone
      refine ⟨Nat.le_of_not_lt hone, fun name c hget => ?_⟩
      exact List.findSome?_eq_none_iff.mp h (name, c) (get?_eq_some_iff.mp hget)
  · rintro ⟨hone, hcolumns⟩
    rw [if_neg (Nat.not_lt.mpr hone), List.findSome?_eq_none_iff]
    exact fun ⟨name, c⟩ hmem => hcolumns name c (get?_eq_some_iff.mpr hmem)

/-- The columns of the one are columns of the other, alike in all that validity looks at. -/
theorem fault?_of_columns {s t : TableSchema} (ht : t.fault? = none)
    (h : ∀ name c, s.get? name = some c → ∃ c', t.get? name = some c' ∧ c.primary = c'.primary ∧
      columnFault? name c = columnFault? name c') : s.fault? = none := by
  obtain ⟨hone, hcolumns⟩ := fault?_eq_none_iff.mp ht
  refine fault?_eq_none_iff.mpr ⟨?_, fun name c hget => ?_⟩
  · have hsubset : s.namesWhere (·.primary) ⊆ t.namesWhere (·.primary) := by
      intro name hmem
      obtain ⟨c, hget, hprimary⟩ := mem_namesWhere.mp hmem
      obtain ⟨c', hget', hsame, _⟩ := h name c hget
      exact mem_namesWhere.mpr ⟨c', hget', hsame ▸ hprimary⟩
    exact Nat.le_trans ((nodup_namesWhere s _).subperm hsubset).length_le hone
  · obtain ⟨c', hget', _, hsame⟩ := h name c hget
    rw [hsame, hcolumns name c' hget']

theorem columnFault?_of_sameDefinition {c d : Column} (h : c.sameDefinition d = true)
    (name : String) : c.primary = d.primary ∧ columnFault? name c = columnFault? name d := by
  unfold Column.sameDefinition at h
  simp only [Bool.and_eq_true, beq_iff_eq] at h
  obtain ⟨⟨⟨⟨⟨⟨⟨⟨hkind, _⟩, _⟩, _⟩, hprimary⟩, hauto⟩, _⟩, _⟩, hvalues⟩ := h
  refine ⟨hprimary, ?_⟩
  unfold columnFault?
  rw [hkind, hprimary, hauto, hvalues]

theorem fault?_merge_diff {desired : TableSchema} (h : desired.fault? = none)
    (stored : TableSchema) : (stored.merge (stored.diff desired)).fault? = none := by
  refine fault?_of_columns h fun name c hget => ?_
  rw [get?_merge_diff] at hget
  obtain ⟨c', hget', rfl⟩ := Option.map_eq_some_iff.mp hget
  refine ⟨c', hget', ?_⟩
  unfold mergedColumn
  split
  · split
    · rename_i hsame
      exact columnFault?_of_sameDefinition hsame name
    · exact ⟨rfl, rfl⟩
  · exact ⟨rfl, rfl⟩

end TableSchema

end ContentTables
