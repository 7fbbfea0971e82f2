import ContentTables.Proofs.Schema.ReadBack

/-!
# Exact differences

* `OrderedMap.entries_insertAll`, `entries_replaceAll`, `entries_eraseAll` : the entries after each
  change of many names, in order;
* `SchemaDiff.names`, `SchemaDiff.without` : the columns a difference mentions, and the difference
  with one of them left out;
* `TableSchema.mem_names_diff_iff` : a difference mentions exactly the columns that differ;
* `TableSchema.entries_merge_diff` : a merged schema keeps the stored order, with changed columns in
  their places, and has the added columns last, in the desired order;
* `TableSchema.diff_exact` : differences and merging are inverse to each other up to the order of
  columns, and no part of a difference can be left out.
-/

namespace ContentTables

section Entries

variable {α : Type} {name : String} {entries : List (String × α)}

theorem map_of_fresh (value : α) (h : name ∉ namesOf entries) :
    entries.map (fun e => (e.1, if e.1 = name then value else e.2)) = entries := by
  refine (List.map_congr_left fun e he => ?_).trans (List.map_id entries)
  have hother : e.1 ≠ name := fun hname => h (hname ▸ List.mem_map_of_mem he)
  rw [if_neg hother]
  rfl

/-- A name that is there takes its new value in place. -/
theorem putEntry_of_mem (value : α) (distinct : (namesOf entries).Nodup)
    (h : name ∈ namesOf entries) : putEntry name value entries =
      entries.map fun e => (e.1, if e.1 = name then value else e.2) := by
  induction entries with
  | nil => exact absurd h List.not_mem_nil
  | cons e rest ih =>
    obtain ⟨n, v⟩ := e
    obtain ⟨hfirst, hrest⟩ := List.nodup_cons.mp distinct
    rw [putEntry, List.map_cons]
    by_cases hn : n = name
    · subst hn
      rw [if_pos rfl, if_pos rfl, map_of_fresh value hfirst]
    · have hmem : name ∈ namesOf rest := (List.mem_cons.mp h).resolve_left fun h => hn h.symm
      rw [if_neg hn, if_neg hn, ih hrest hmem]

end Entries

namespace OrderedMap

variable {α : Type}

theorem entries_insertAll (m : OrderedMap α) {pairs : List (String × α)}
    (h : (namesOf (m.entries ++ pairs)).Nodup) :
    (m.insertAll pairs).entries = m.entries ++ pairs := by
  induction pairs generalizing m with
  | nil => exact (List.append_nil _).symm
  | cons e rest ih =>
    obtain ⟨name, value⟩ := e
    have hfresh : name ∉ namesOf m.entries := by
      rw [namesOf_append] at h
      exact fun hmem => (List.nodup_append.mp h).2.2 _ hmem _ List.mem_cons_self rfl
    have hinsert : (m.insert name value).entries = m.entries ++ [(name, value)] :=
      putEntry_of_fresh hfresh
    have hassoc : m.entries ++ (name, value) :: rest =
        (m.insert name value).entries ++ rest := by rw [hinsert, List.append_assoc]; rfl
    show ((m.insert name value).insertAll rest).entries = _
    rw [ih _ (hassoc ▸ h), hassoc]

theorem entries_replace (m : OrderedMap α) (name : String) (value : α) :
    (m.replace name value).entries =
      m.entries.map fun e => (e.1, if e.1 = name then value else e.2) := by
  unfold replace
  split
  · rename_i h
    exact putEntry_of_mem value m.distinct (contains_iff.mp h)
  · rename_i h
    exact (map_of_fresh value (mt contains_iff.mpr h)).symm

theorem entries_replaceAll (m n : OrderedMap α) : (m.replaceAll n.entries).entries =
    m.entries.map fun e => (e.1, (n.get? e.1).getD e.2) := by
  obtain ⟨entries, distinct⟩ := n
  show (m.replaceAll entries).entries = m.entries.map fun e => (e.1, (entries.lookup e.1).getD e.2)
  induction entries generalizing m with
  | nil => exact (List.map_id _).symm
  | cons e rest ih =>
    obtain ⟨name, value⟩ := e
    obtain ⟨hfresh, hrest⟩ := List.nodup_cons.mp distinct
    have hnone : rest.lookup name = none := by
      rw [← Option.not_isSome_iff_eq_none, lookup_isSome_iff]
      exact hfresh
    show ((m.replace name value).replaceAll rest).entries = _
    rw [ih _ hrest, entries_replace, List.map_map]
    refine List.map_congr_left fun e _ => ?_
    rw [lookup_cons_eq]
    by_cases h : e.1 = name
    · simp [h, hnone]
    · simp [h]

theorem entries_eraseAll (m : OrderedMap α) (names : List String) :
    (m.eraseAll names).entries = m.entries.filter fun e => !names.contains e.1 := by
  induction names generalizing m with
  | nil => exact (List.filter_eq_self.mpr fun _ _ => rfl).symm
  | cons name rest ih =>
    show ((m.erase name).eraseAll rest).entries = _
    rw [ih]
    show (m.entries.filter fun e => e.1 != name).filter _ = _
    rw [List.filter_filter]
    refine List.filter_congr fun e _ => ?_
    rw [List.contains_cons, Bool.not_or, Bool.and_comm]
    rfl

end OrderedMap

namespace SchemaDiff

/-- The columns that are mentioned, each as often as it is. -/
def names (d : SchemaDiff) : List String := d.added.names ++ d.changed.names ++ d.dropped

def without (d : SchemaDiff) (name : String) : SchemaDiff where
  added := d.added.erase name
  changed := d.changed.erase name
  dropped := d.dropped.filter (· != name)

theorem names_without (d : SchemaDiff) (name : String) :
    (d.without name).names = d.names.filter (· != name) := by
  unfold names without
  rw [OrderedMap.names_erase, OrderedMap.names_erase, List.filter_append, List.filter_append]

end SchemaDiff

namespace TableSchema

open OrderedMap

/-- Under the name, both schemas have columns of one definition, or neither has a column. -/
def Agree (stored desired : TableSchema) (name : String) : Prop :=
  Option.Rel (fun c d => c.sameDefinition d = true) (stored.get? name) (desired.get? name)

theorem mem_added_diff {stored desired : TableSchema} {name : String} :
    name ∈ (stored.diff desired).added.names ↔
      stored.get? name = none ∧ ∃ c, desired.get? name = some c := by
  rw [← isSome_get?_iff, get?_added_diff]
  cases hs : stored.get? name with
  | none => cases desired.get? name <;> simp [contains, hs, Option.filter]
  | some c => cases desired.get? name <;> simp [contains, hs, Option.filter]

theorem mem_changed_diff {stored desired : TableSchema} {name : String} :
    name ∈ (stored.diff desired).changed.names ↔ ∃ c d, stored.get? name = some c ∧
      desired.get? name = some d ∧ c.sameDefinition d = false := by
  rw [← isSome_get?_iff, get?_changed_diff]
  cases hs : stored.get? name with
  | none => cases desired.get? name <;> simp [Option.filter]
  | some c =>
    cases hd : desired.get? name with
    | none => simp
    | some d => cases h : c.sameDefinition d <;> simp [Option.filter, h]

/-- A difference mentions exactly the columns that differ. -/
theorem mem_names_diff_iff {stored desired : TableSchema} {name : String} :
    name ∈ (stored.diff desired).names ↔ ¬ stored.Agree desired name := by
  unfold SchemaDiff.names Agree
  rw [List.mem_append, List.mem_append, mem_added_diff, mem_changed_diff, mem_dropped_diff]
  cases hs : stored.get? name with
  | none => cases hd : desired.get? name <;> simp
  | some c => cases hd : desired.get? name <;> simp

/-- No column is mentioned twice, by one part or by two. -/
theorem nodup_names_diff (stored desired : TableSchema) : (stored.diff desired).names.Nodup := by
  have hdropped : (stored.diff desired).dropped.Nodup := stored.distinct.filter _
  refine List.nodup_append'.mpr ⟨List.nodup_append'.mpr ⟨(stored.diff desired).added.distinct,
    (stored.diff desired).changed.distinct, ?_⟩, hdropped, ?_⟩
  · intro name hadded hchanged
    obtain ⟨hnone, _⟩ := mem_added_diff.mp hadded
    obtain ⟨c, _, hsome, _⟩ := mem_changed_diff.mp hchanged
    exact nomatch hnone.symm.trans hsome
  · intro name hwanted hdropped
    obtain ⟨_, habsent⟩ := mem_dropped_diff.mp hdropped
    rcases List.mem_append.mp hwanted with hadded | hchanged
    · obtain ⟨_, c, hsome⟩ := mem_added_diff.mp hadded
      exact nomatch habsent.symm.trans hsome
    · obtain ⟨_, d, _, hsome, _⟩ := mem_changed_diff.mp hchanged
      exact nomatch habsent.symm.trans hsome

/-- The retained columns in the stored order, changed ones in place, then the added ones. -/
theorem entries_merge_diff (stored desired : TableSchema) :
    (stored.merge (stored.diff desired)).entries =
      ((stored.entries.filter fun e => desired.contains e.1).map fun e =>
        (e.1, ((stored.diff desired).changed.get? e.1).getD e.2)) ++
      desired.entries.filter fun e => !stored.contains e.1 := by
  have hadded : (stored.diff desired).added.entries =
    desired.entries.filter fun e => !stored.contains e.1 := rfl
  have hnodup : (namesOf (stored.entries ++ (stored.diff desired).added.entries)).Nodup := by
    rw [namesOf_append]
    refine List.nodup_append'.mpr ⟨stored.distinct, (stored.diff desired).added.distinct, ?_⟩
    intro name hstored hmem
    obtain ⟨c, hc⟩ := Option.isSome_iff_exists.mp (isSome_get?_iff.mpr hstored)
    exact Option.some_ne_none c (hc.symm.trans (mem_added_diff.mp hmem).1)
  unfold merge
  rw [entries_eraseAll, entries_replaceAll, entries_insertAll stored hnodup, List.filter_map,
    List.filter_append, List.map_append, ← hadded]
  congr 1
  · congr 1
    refine List.filter_congr fun e he => ?_
    have hstored : (stored.get? e.1).isSome = true := isSome_get?_iff.mpr (List.mem_map_of_mem he)
    have hiff : e.1 ∈ (stored.diff desired).dropped ↔ desired.contains e.1 = false := by
      rw [mem_dropped_diff, contains, Option.isSome_eq_false_iff, Option.isNone_iff_eq_none]
      exact and_iff_right hstored
    cases hcontains : desired.contains e.1 <;> simp [hiff, hcontains]
  · -- an added column is neither dropped nor changed
    have hnone : ∀ e ∈ (stored.diff desired).added.entries,
        e.1 ∉ (stored.diff desired).dropped ∧ (stored.diff desired).changed.get? e.1 = none := by
      intro e he
      obtain ⟨habsent, c, hc⟩ := mem_added_diff.mp (List.mem_map_of_mem he)
      refine ⟨fun hmem => ?_, ?_⟩
      · exact Option.some_ne_none c (hc.symm.trans (mem_dropped_diff.mp hmem).2)
      · rw [get?_changed_diff, habsent]
        simp
    rw [List.filter_eq_self.mpr fun e he => by simp [(hnone e he).1]]
    refine (List.map_congr_left fun e he => ?_).trans (List.map_id _)
    rw [(hnone e he).2]
    rfl

/-- A column that is left out of the difference stays as it was stored. -/
theorem get?_merge_without (stored : TableSchema) (d : SchemaDiff) (name : String) :
    (stored.merge (d.without name)).get? name = stored.get? name := by
  unfold SchemaDiff.without
  rw [get?_merge, get?_erase, get?_erase, if_pos rfl, if_pos rfl]
  simp

theorem not_sameContent_merge_without {stored desired : TableSchema} {name : String}
    (h : name ∈ (stored.diff desired).names) :
    (stored.merge ((stored.diff desired).without name)).sameContent desired = false := by
  rw [Bool.eq_false_iff]
  intro hsame
  have hagree := sameContent_iff.mp hsame name
  rw [get?_merge_without] at hagree
  exact mem_names_diff_iff.mp h hagree

/-- Nothing is mentioned twice and nothing in vain: the difference is empty exactly where the
content is the same, merging it reaches the desired content in the stored order of columns, and
leaving out any column it mentions does not. -/
theorem diff_exact (stored : TableSchema) {desired : TableSchema} (h : desired.Distinct) :
    (stored.diff desired).names.Nodup ∧
    ((stored.diff desired).isEmpty = true ↔ stored.sameContent desired = true) ∧
    (stored.merge (stored.diff desired)).sameContent desired = true ∧
    (stored.merge (stored.diff desired)).entries =
      ((stored.entries.filter fun e => desired.contains e.1).map fun e =>
        (e.1, ((stored.diff desired).changed.get? e.1).getD e.2)) ++
      (desired.entries.filter fun e => !stored.contains e.1) ∧
    ∀ name ∈ (stored.diff desired).names,
      ((stored.diff desired).without name).names = (stored.diff desired).names.erase name ∧
      (stored.merge ((stored.diff desired).without name)).sameContent desired = false := by
  have hnodup := nodup_names_diff stored desired
  refine ⟨hnodup, isEmpty_diff_iff, sameContent_merge_diff h stored,
    entries_merge_diff stored desired, fun name hname => ⟨?_, not_sameContent_merge_without hname⟩⟩
  rw [SchemaDiff.names_without, hnodup.erase_eq_filter]

/-- A note with a default that is an object. -/
def notesTable : TableSchema := .ofList [("a", .string 10), ("b", .int 11),
  ("extra", { kind := .object, default := some (.obj [("x", .bool true), ("y", .null)]) })]

/-- Its default written in another order, one column longer, one new and one gone. -/
def longerNotes : TableSchema := .ofList [("c", .bool),
  ("extra", { kind := .object, default := some (.obj [("y", .null), ("x", .bool true)]) }),
  ("a", .string 20)]

theorem diff_exact_longerNotes : longerNotes.Distinct ∧
    (notesTable.diff longerNotes).names = ["c", "a", "b"] ∧
    (notesTable.merge (notesTable.diff longerNotes)).names = ["a", "extra", "c"] ∧
    (notesTable.merge (notesTable.diff longerNotes)).sameContent longerNotes = true ∧
    ∀ name ∈ ["c", "a", "b"],
      (notesTable.merge ((notesTable.diff longerNotes).without name)).sameContent longerNotes =
        false := by
  have hdistinct : longerNotes.Distinct := by
    intro name c hget v hv
    have hmem : (name, c) ∈ longerNotes.entries := get?_eq_some_iff.mp hget
    have hcolumns : longerNotes.entries = [("c", .bool),
      ("extra", { kind := .object, default := some (.obj [("y", .null), ("x", .bool true)]) }),
      ("a", .string 20)] := rfl
    rw [hcolumns] at hmem
    simp only [List.mem_cons, Prod.mk.injEq, List.not_mem_nil, or_false] at hmem
    obtain ⟨_, rfl⟩ | ⟨_, rfl⟩ | ⟨_, rfl⟩ := hmem
    · exact nomatch hv
    · cases hv
      exact ⟨by decide, trivial, trivial, trivial⟩
    · exact nomatch hv
  have hnames : (notesTable.diff longerNotes).names = ["c", "a", "b"] := by decide
  obtain ⟨_, _, hsame, hentries, hneeded⟩ := diff_exact notesTable hdistinct
  refine ⟨hdistinct, hnames, ?_, hsame, fun name hname => ?_⟩
  · rw [names, hentries]
    decide
  · exact (hneeded name (hnames ▸ hname)).2

end TableSchema

end ContentTables
