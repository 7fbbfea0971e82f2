import ContentTables.ContentType.Lifecycle
import ContentTables.Proofs.ContentType.Composed
import ContentTables.Proofs.Store.Migrating

/-!
# What content types do to the records

* `TypeDescriptor.Composable`, `TypeDescriptor.exists_composition` : types whose tables can be
  composed;
* `TypeDescriptor.Recordable` : what is recorded of their tables can be read again;
* `TableRole.eq_of_tableName`, `Named` : tables of different roles have different names, whatever
  their slugs;
* `LaidOut` : the tables of a type are recorded, and nothing else is but what was there before;
  after an installation as `WrittenFrom` their schemas, after an update as `HoldsWritten`;
* `Laying`, `Creating`, `Reshaping`, `Clearing` : on the way there, and on the way out, table by
  table;
* `moves_install`, `moves_update`, `moves_uninstall` : from one such state to the next, and back;
* `leaves_update_unreadable` : while the record of its content table cannot be read, no update of a
  type succeeds.
-/

namespace ContentTables

open Function (update)
open Records RecordTable

/-! ## Composed tables -/

/-- The slug is not blank, and the filters make a valid schema of each derived table. -/
structure TypeDescriptor.Composable (filters : TableFilters) (d : TypeDescriptor) : Prop where
  named : isBlankText d.slug = false
  accepted : ∀ e ∈ d.derivedTables, ∃ schema,
    filters.apply ⟨e.1.tableName d.slug, e.1, d⟩ e.2 = .ok schema ∧ schema.validate = .ok ()

/-- What is recorded of the composed schemas can be read (`TableSchema.recordable_iff`). -/
def TypeDescriptor.Recordable (filters : TableFilters) (d : TypeDescriptor) : Prop :=
  ∀ tables, d.compose filters = .ok tables → ∀ t ∈ tables, t.schema.Recordable

/-- None of the tables of the type is recorded. -/
def TypeDescriptor.Absent (records : RecordMap) (d : TypeDescriptor) : Prop :=
  ∀ e ∈ d.derivedTables, records (e.1.tableName d.slug) = none

/-- Names of different roles end in different letters. -/
theorem TableRole.eq_of_tableName {role role' : TableRole} {slug slug' : String}
    (h : role.tableName slug = role'.tableName slug') : role = role' := by
  have hletter : ∀ (r : TableRole) (s : String),
      (r.tableName s).toList.getLast? = r.name.toList.getLast? := by
    intro r s
    rw [tableName, String.toList_append, List.getLast?_append]
    cases r <;> rfl
  have hlast := congrArg (fun s : String => s.toList.getLast?) h
  simp only [hletter] at hlast
  cases role <;> cases role' <;> first | rfl | exact absurd hlast (by decide)

/-- The tables of a type with that slug, at most one for each role. -/
structure Named (slug : String) (tables : List ComposedTable) : Prop where
  roles : (tables.map (·.role)).Nodup
  table_eq : ∀ t ∈ tables, t.table = t.role.tableName slug

namespace Named

variable {slug : String} {t : ComposedTable} {tables rest : List ComposedTable}

theorem tail (h : Named slug (t :: rest)) : Named slug rest :=
  ⟨(List.nodup_cons.mp h.roles).2, fun u hu => h.table_eq u (List.mem_cons_of_mem t hu)⟩

theorem ne_head (h : Named slug (t :: rest)) {slug' : String} :
    ∀ u ∈ rest, u.table ≠ t.role.tableName slug' := by
  intro u hu hsame
  rw [h.table_eq u (List.mem_cons_of_mem t hu)] at hsame
  have hmem : u.role ∈ rest.map (·.role) := List.mem_map_of_mem hu
  rw [TableRole.eq_of_tableName hsame] at hmem
  exact (List.nodup_cons.mp h.roles).1 hmem

theorem table_ne_head (h : Named slug (t :: rest)) : ∀ u ∈ rest, u.table ≠ t.table := by
  rw [h.table_eq t List.mem_cons_self]
  exact h.ne_head

theorem inj (h : Named slug tables) {u : ComposedTable} (hu : u ∈ tables) (ht : t ∈ tables)
    (hsame : u.table = t.table) : u = t := by
  rw [h.table_eq u hu, h.table_eq t ht] at hsame
  exact List.inj_on_of_nodup_map h.roles hu ht (TableRole.eq_of_tableName hsame)

end Named

/-- What is composed for a type. -/
structure Composition (filters : TableFilters) (initial : RecordMap) (d : TypeDescriptor)
    (tables : List ComposedTable) : Prop where
  composed : d.compose filters = .ok tables
  named : Named d.slug tables
  valid : ∀ t ∈ tables, t.schema.validate = .ok ()
  absent : ∀ t ∈ tables, initial t.table = none

namespace TypeDescriptor

variable {filters : TableFilters} {d : TypeDescriptor} {initial : RecordMap}

theorem exists_composeAll {derived : List (TableRole × TableSchema)}
    (h : ∀ e ∈ derived, ∃ schema, filters.apply ⟨e.1.tableName d.slug, e.1, d⟩ e.2 = .ok schema ∧
      schema.validate = .ok ()) :
    ∃ tables, d.composeAll filters derived = .ok tables ∧
      ∀ t ∈ tables, t.schema.validate = .ok () := by
  induction derived with
  | nil => exact ⟨[], rfl, nofun⟩
  | cons e rest ih =>
    obtain ⟨⟨schema, hfiltered, hvalid⟩, hrest⟩ := List.forall_mem_cons.mp h
    obtain ⟨tables, htables, hall⟩ := ih hrest
    refine ⟨⟨e.1.tableName d.slug, e.1, schema⟩ :: tables, ?_,
      List.forall_mem_cons.mpr ⟨hvalid, hall⟩⟩
    have hfirst : d.composeTable filters e.1 e.2 = .ok ⟨e.1.tableName d.slug, e.1, schema⟩ := by
      unfold composeTable
      simp only [hfiltered]
      rfl
    unfold composeAll
    rw [hfirst, htables]
    rfl

theorem nodup_roles (d : TypeDescriptor) : (d.derivedTables.map Prod.fst).Nodup := by
  unfold derivedTables
  cases d.comments <;> simp

theorem named_of_compose {tables : List ComposedTable} (h : d.compose filters = .ok tables) :
    Named d.slug tables := by
  obtain ⟨hroles, hnames⟩ := composeAll_eq_ok (composeAll_of_compose h)
  exact ⟨hroles ▸ d.nodup_roles, hnames⟩

theorem exists_composition (h : d.Composable filters) (habsent : d.Absent initial) :
    ∃ tables, Composition filters initial d tables := by
  obtain ⟨tables, htables, hall⟩ := exists_composeAll h.accepted
  have hcomposed : d.compose filters = .ok tables := by
    unfold compose
    rw [h.named]
    exact htables
  obtain ⟨hroles, hnames⟩ := composeAll_eq_ok htables
  refine ⟨tables, hcomposed, named_of_compose hcomposed, hall, fun t ht => ?_⟩
  have hmem : t.role ∈ d.derivedTables.map Prod.fst := hroles ▸ List.mem_map_of_mem ht
  obtain ⟨e, he, hrole⟩ := List.mem_map.mp hmem
  rw [hnames t ht, ← hrole]
  exact habsent e he

end TypeDescriptor

/-! ## Records of a type -/

/-- The tables have such records, and the other records are the initial ones. -/
structure LaidOut (Kept : Option Row → TableSchema → Prop) (initial : RecordMap)
    (tables : List ComposedTable) (records : RecordMap) : Prop where
  held : ∀ t ∈ tables, Kept (records t.table) t.schema
  others : ∀ name, (∀ t ∈ tables, t.table ≠ name) → records name = initial name

/-- On the way to such a state, where some tables are left to do. -/
structure Laying (Kept : Option Row → TableSchema → Prop) (initial : RecordMap)
    (tables rest : List ComposedTable) (records : RecordMap) : Prop where
  left : rest ⊆ tables
  held : ∀ t ∈ tables, t ∈ rest ∨ Kept (records t.table) t.schema
  others : ∀ name, (∀ t ∈ tables, t.table ≠ name) → records name = initial name

/-- The tables that are left are not there yet. -/
structure Creating (initial : RecordMap) (slug : String) (tables rest : List ComposedTable)
    (records : RecordMap) : Prop extends Laying WrittenFrom initial tables rest records where
  named : Named slug rest
  absent : ∀ t ∈ rest, records t.table = none

/-- The tables may be there, in any shape. -/
structure Reshaping (initial : RecordMap) (tables rest : List ComposedTable) (records : RecordMap) :
    Prop extends Laying HoldsWritten initial tables rest records where
  readable : ∀ t ∈ tables, Readable (records t.table)

/-- On the way out of such a state. The tables that are left can still be read and written, the
wanted ones can be read where they are there, and the other records are the initial ones. -/
structure Clearing (initial : RecordMap) (slug : String) (wanted rest : List ComposedTable)
    (records : RecordMap) : Prop where
  named : Named slug rest
  absent : ∀ p ∈ rest, initial p.table = none
  rewritable : ∀ p ∈ rest, Rewritable (records p.table)
  readable : ∀ t ∈ wanted, Readable (records t.table)
  others : ∀ name, (∀ t ∈ wanted, t.table ≠ name) → (∀ p ∈ rest, p.table ≠ name) →
    records name = initial name

theorem readable_update {records : RecordMap} {record : Option Row} {name : String}
    (hrecord : Readable record) (h : Readable (records name)) (key : String) :
    Readable (update records key record name) := by
  by_cases hsame : name = key
  · rw [hsame, Function.update_self]
    exact hrecord
  · rw [Function.update_of_ne hsame]
    exact h

section States
variable {filters : TableFilters} {d : TypeDescriptor} {initial records : RecordMap}
  {slug : String} {p t : ComposedTable} {tables rest wanted : List ComposedTable}
  {record : Option Row} {Kept : Option Row → TableSchema → Prop}

theorem LaidOut.holdsWritten (h : LaidOut WrittenFrom initial tables records)
    (hrecordable : ∀ t ∈ tables, t.schema.Recordable) : LaidOut HoldsWritten initial tables records :=
  ⟨fun t ht => (h.held t ht).holdsWritten (hrecordable t ht), h.others⟩

namespace Laying

theorem start (hothers : ∀ name, (∀ t ∈ tables, t.table ≠ name) → records name = initial name) :
    Laying Kept initial tables tables records :=
  ⟨List.Subset.refl _, fun _ ht => Or.inl ht, hothers⟩

theorem step (h : Laying Kept initial tables (t :: rest) records) (hnamed : Named slug tables)
    (hrecord : Kept record t.schema) :
    Laying Kept initial tables rest (update records t.table record) := by
  obtain ⟨ht, hrest⟩ := List.cons_subset.mp h.left
  refine ⟨hrest, fun u hu => ?_, fun name hname => ?_⟩
  · by_cases hsame : u.table = t.table
    · obtain rfl := hnamed.inj hu ht hsame
      rw [Function.update_self]
      exact Or.inr hrecord
    · rw [Function.update_of_ne hsame]
      exact (h.held u hu).imp_left fun hmem =>
        (List.mem_cons.mp hmem).resolve_left fun h => hsame (h ▸ rfl)
  · rw [Function.update_of_ne (hname t ht).symm]
    exact h.others name hname

theorem laidOut (h : Laying Kept initial tables [] records) : LaidOut Kept initial tables records :=
  ⟨fun t ht => (h.held t ht).resolve_left List.not_mem_nil, h.others⟩

end Laying

namespace Clearing

theorem start (h : Composition filters initial d tables) (hd : d.Recordable filters)
    (hrecords : LaidOut HoldsWritten initial tables records)
    (hreadable : ∀ t ∈ wanted, Readable (records t.table)) :
    Clearing initial d.slug wanted tables records where
  named := h.named
  absent := h.absent
  rewritable p hp := (hrecords.held p hp).rewritable (hd tables h.composed p hp)
  readable := hreadable
  others name _ hleft := hrecords.others name hleft

theorem drop (h : Clearing initial slug wanted (p :: rest) records) :
    Clearing initial slug wanted rest (update records p.table none) where
  named := h.named.tail
  absent := (List.forall_mem_cons.mp h.absent).2
  rewritable q hq := by
    rw [Function.update_of_ne (h.named.table_ne_head q hq)]
    exact h.rewritable q (List.mem_cons_of_mem p hq)
  readable t ht := readable_update readable_none (h.readable t ht) p.table
  others name hwanted hleft := by
    by_cases hsame : name = p.table
    · rw [hsame, Function.update_self, h.absent p List.mem_cons_self]
    · rw [Function.update_of_ne hsame]
      exact h.others name hwanted (List.forall_mem_cons.mpr ⟨fun h => hsame h.symm, hleft⟩)

/-- A wanted table gets a record. -/
theorem put (h : Clearing initial slug wanted rest records) (ht : t ∈ wanted)
    (hleft : ∀ q ∈ rest, q.table ≠ t.table) (hrecord : Readable record) :
    Clearing initial slug wanted rest (update records t.table record) where
  named := h.named
  absent := h.absent
  rewritable q hq := by
    rw [Function.update_of_ne (hleft q hq)]
    exact h.rewritable q hq
  readable u hu := readable_update hrecord (h.readable u hu) t.table
  others name hwanted hleft := by
    rw [Function.update_of_ne (hwanted t ht).symm]
    exact h.others name hwanted hleft

/-- A table that is wanted under its name stays as it is. -/
theorem keep (h : Clearing initial slug wanted (p :: rest) records) (ht : t ∈ wanted)
    (hsame : t.table = p.table) : Clearing initial slug wanted rest records where
  named := h.named.tail
  absent := (List.forall_mem_cons.mp h.absent).2
  rewritable := (List.forall_mem_cons.mp h.rewritable).2
  readable := h.readable
  others name hwanted hleft :=
    h.others name hwanted (List.forall_mem_cons.mpr ⟨hsame ▸ hwanted t ht, hleft⟩)

end Clearing

end States

section Phases
variable {σ : Type} {naming : TableNaming} {db : Database σ} {R : RecordTable naming db}
  (hfree : R.FailsOnly False) {filters : TableFilters} {initial before : RecordMap}
  {d new old : TypeDescriptor} {tables wanted existing : List ComposedTable}
include hfree

/-! ### Installation -/

theorem moves_install (h : Composition filters initial d tables) :
    R.Moves False initial (ContentType.install naming filters d)
      fun after _ => LaidOut WrittenFrom initial tables after := by
  have hstep : ∀ t rest before, Creating initial d.slug tables (t :: rest) before →
      R.Moves False before (Migration.createTable naming t.table t.schema)
        fun after _ => Creating initial d.slug tables rest after := by
    intro t rest before hcreating
    obtain ⟨hfresh, hlater⟩ := List.forall_mem_cons.mp hcreating.absent
    have ht : t ∈ tables := hcreating.left List.mem_cons_self
    refine (moves_createTable hfree (Or.inr (h.valid t ht)) (Or.inr hfresh)).mono ?_
    rintro after _ ⟨_, rfl⟩
    refine ⟨hcreating.step h.named rfl, hcreating.named.tail, fun u hu => ?_⟩
    rw [Function.update_of_ne (hcreating.named.table_ne_head u hu)]
    exact hlater u hu
  have hstart : Creating initial d.slug tables tables initial :=
    ⟨.start fun _ _ => rfl, h.named, h.absent⟩
  unfold ContentType.install
  rw [h.composed, Operation.ofExcept_ok_bind]
  exact (moves_forM_steps _ hstep hstart).mono fun _ _ hafter => hafter.laidOut

/-! ### Updates -/

omit hfree in
theorem hasRole_iff_any {role : TableRole} :
    wanted.any (·.role == role) = true ↔ ∃ t ∈ wanted, t.role = role := by
  simp [List.any_eq_true]

/-- An old table is dropped, renamed or left. -/
theorem moves_moveTable {p : ComposedTable} {rest : List ComposedTable}
    (hnew : Composition filters initial new wanted)
    (hbefore : Clearing initial old.slug wanted (p :: rest) before) :
    R.Moves False before (ContentType.moveTable naming wanted new.slug p)
      fun after _ => Clearing initial old.slug wanted rest after := by
  unfold ContentType.moveTable
  simp only
  split
  · -- the role is not wanted
    refine (moves_dropTable hfree).mono ?_
    rintro after _ rfl
    exact hbefore.drop
  · rename_i hkept
    obtain ⟨t, ht, hrole⟩ := hasRole_iff_any.mp (by simpa using hkept)
    have htarget : p.role.tableName new.slug = t.table := by
      rw [hnew.named.table_eq t ht, hrole]
    rw [htarget]
    split
    · -- the slug is another one
      obtain ⟨row, stored, again, hrow, hdecoded, hagain⟩ :=
        hbefore.rewritable p List.mem_cons_self
      refine (moves_renameTable hfree (Or.inr ⟨row, stored, hrow, hdecoded⟩)).mono ?_
      rintro after _ ⟨row', stored', hrow', hdecoded', rfl⟩
      obtain rfl := schema_unique hrow hdecoded hrow' hdecoded'
      refine hbefore.drop.put ht (htarget ▸ hbefore.named.ne_head) ?_
      rintro _ ⟨⟩
      exact ⟨again, hagain⟩
    · rename_i hsame
      exact moves_pure (hbefore.keep ht (not_not.mp hsame))

/-- Whatever is there under a wanted name can be read afterwards, and nothing else is left. -/
theorem moves_moveTables (hold : Composition filters initial old existing)
    (hnew : Composition filters initial new wanted) (hrecordable : old.Recordable filters)
    (hbefore : LaidOut HoldsWritten initial existing before) :
    R.Moves False before (existing.forM (ContentType.moveTable naming wanted new.slug))
      fun after _ => (∀ t ∈ wanted, Readable (after t.table)) ∧
        ∀ name, (∀ t ∈ wanted, t.table ≠ name) → after name = initial name := by
  have hreadable : ∀ t ∈ wanted, Readable (before t.table) := by
    intro t ht
    by_cases hthere : ∃ p ∈ existing, p.table = t.table
    · obtain ⟨p, hp, hsame⟩ := hthere
      exact hsame ▸ (hbefore.held p hp).readable
    · rw [hbefore.others t.table fun p hp hsame => hthere ⟨p, hp, hsame⟩, hnew.absent t ht]
      exact readable_none
  have hstart : Clearing initial old.slug wanted existing before :=
    .start hold hrecordable hbefore hreadable
  have hsteps := moves_forM_steps (Clearing initial old.slug wanted)
    (fun p rest before => moves_moveTable hfree hnew) hstart
  exact hsteps.mono fun after _ hafter =>
    ⟨hafter.readable, fun name hname => hafter.others name hname nofun⟩

/-- Whatever is there can be read, and is brought to the wanted schemas. -/
theorem moves_reconcileTables (hnew : Composition filters initial new wanted)
    (hrecordable : new.Recordable filters)
    (hreadable : ∀ t ∈ wanted, Readable (before t.table))
    (hothers : ∀ name, (∀ t ∈ wanted, t.table ≠ name) → before name = initial name) :
    R.Moves False before (wanted.forM fun t => do
        let _ ← Migration.reconcile naming t.table t.schema)
      fun after _ => LaidOut HoldsWritten initial wanted after := by
  have hstep : ∀ t rest before, Reshaping initial wanted (t :: rest) before →
      R.Moves False before (do let _ ← Migration.reconcile naming t.table t.schema)
        fun after _ => Reshaping initial wanted rest after := by
    intro t rest before hreshaping
    have ht : t ∈ wanted := hreshaping.left List.mem_cons_self
    have hreconcile : R.Moves False before (Migration.reconcile naming t.table t.schema) _ :=
      moves_reconcile_written hfree (hrecordable wanted hnew.composed t ht)
        (Or.inr (hnew.valid t ht)) (Or.inr (hreshaping.readable t ht))
    refine hreconcile.settle fun after _ hafter => moves_pure ?_
    obtain ⟨⟨record, hwritten, rfl⟩, _⟩ := hafter
    exact ⟨hreshaping.step hnew.named hwritten, fun u hu =>
      readable_update hwritten.readable (hreshaping.readable u hu) t.table⟩
  exact (moves_forM_steps _ hstep ⟨.start hothers, hreadable⟩).mono
    fun _ _ hafter => hafter.laidOut

theorem moves_update (hold : Composition filters initial old existing)
    (hnew : Composition filters initial new wanted)
    (hrecordable : old.Recordable filters ∧ new.Recordable filters)
    (hbefore : LaidOut HoldsWritten initial existing before) :
    R.Moves False before (ContentType.update naming filters new old)
      fun after _ => LaidOut HoldsWritten initial wanted after := by
  unfold ContentType.update
  rw [hnew.composed, hold.composed, Operation.ofExcept_ok_bind, Operation.ofExcept_ok_bind]
  exact (moves_moveTables hfree hold hnew hrecordable.1 hbefore).settle fun after _ hafter =>
    moves_reconcileTables hfree hnew hrecordable.2 hafter.1 hafter.2

/-! ### Uninstallation -/

/-- Nothing is left of the type. -/
theorem moves_uninstall (h : Composition filters initial d tables) (hd : d.Recordable filters)
    (hbefore : LaidOut HoldsWritten initial tables before) :
    R.Moves False before (ContentType.uninstall naming filters d)
      fun after _ => after = initial := by
  have hstep : ∀ t rest before, Clearing initial d.slug [] (t :: rest) before →
      R.Moves False before (Migration.dropTable naming t.table)
        fun after _ => Clearing initial d.slug [] rest after := by
    intro t rest before hclearing
    refine (moves_dropTable hfree).mono ?_
    rintro after _ rfl
    exact hclearing.drop
  unfold ContentType.uninstall
  rw [h.composed, Operation.ofExcept_ok_bind]
  exact (moves_forM_steps _ hstep (.start h hd hbefore nofun)).mono fun after _ hafter =>
    funext fun name => hafter.others name nofun nofun

end Phases

/-! ## Records that cannot be read -/

section Unreadable
variable {σ : Type} {naming : TableNaming} {db : Database σ} {R : RecordTable naming db}
  {filters : TableFilters} {before : RecordMap} {new old : TypeDescriptor} {p q t : ComposedTable}
  {rest wanted existing : List ComposedTable} {table : String}

theorem leaves_reconcile_unreadable (h : ¬ Readable (before table)) (desired : TableSchema) :
    R.Leaves before (Migration.reconcile naming table desired) fun _ _ => False := by
  unfold Migration.reconcile
  refine (moves_ofExcept (Or.inl trivial)).leaves.bind fun _ _ hvalid => ?_
  rw [hvalid.1]
  exact (moves_find? R.failsOnly_true (Or.inl trivial)).leaves.bind fun _ _ hfound =>
    absurd (readable_of_found hfound.2) h

theorem leaves_renameTable_unreadable (h : ¬ Readable (before table)) (target : String) :
    R.Leaves before (Migration.renameTable naming table target) fun _ _ => False := by
  unfold Migration.renameTable
  exact (moves_get R.failsOnly_true (Or.inl trivial)).leaves.bind fun _ _ hfound =>
    absurd (readable_of_found hfound.2) h

/-- A table that keeps its name is left alone while the tables of the old type are moved. -/
theorem leaves_moveTable (hp : p.table = p.role.tableName old.slug)
    (hq : q.table = q.role.tableName old.slug) (hwanted : ∃ t ∈ wanted, t.role = p.role)
    (hsame : p.role.tableName new.slug = p.table) :
    R.Leaves before (ContentType.moveTable naming wanted new.slug q)
      fun after _ => after p.table = before p.table := by
  have hne : q.role ≠ p.role → ∀ slug, p.table ≠ q.role.tableName slug := by
    intro hrole slug htable
    exact hrole (TableRole.eq_of_tableName (htable.symm.trans hp))
  unfold ContentType.moveTable
  simp only
  split
  · rename_i hdropped
    have hrole : q.role ≠ p.role := by
      intro hrole
      rw [hrole, hasRole_iff_any.mpr hwanted] at hdropped
      exact nomatch hdropped
    refine ((moves_dropTable R.failsOnly_true).mono ?_).leaves
    rintro after _ rfl
    rw [Function.update_of_ne (hq ▸ hne hrole old.slug)]
  · split
    · rename_i hmoved
      have hrole : q.role ≠ p.role := by
        intro hrole
        rw [hq, hrole, ← hp] at hmoved
        exact hmoved hsame
      refine ((moves_renameTable R.failsOnly_true (Or.inl trivial)).mono ?_).leaves
      rintro after _ ⟨_, _, _, _, rfl⟩
      rw [Function.update_of_ne (hne hrole new.slug),
        Function.update_of_ne (hq ▸ hne hrole old.slug)]
    · exact (moves_pure rfl : R.Moves False before (pure ()) _).leaves

theorem leaves_moveTables (hold : old.compose filters = .ok existing) (hp : p ∈ existing)
    (hwanted : ∃ t ∈ wanted, t.role = p.role) (hsame : p.role.tableName new.slug = p.table) :
    R.Leaves before (existing.forM (ContentType.moveTable naming wanted new.slug))
      fun after _ => after p.table = before p.table := by
  have hnames : ∀ q ∈ existing, q.table = q.role.tableName old.slug :=
    fun _ hq => TypeDescriptor.table_of_compose hold hq
  have hstep : ∀ q left after, q :: left ⊆ existing ∧ after p.table = before p.table →
      R.Leaves after (ContentType.moveTable naming wanted new.slug q) fun last _ =>
        left ⊆ existing ∧ last p.table = before p.table := by
    intro q left after ⟨hleft, hafter⟩
    obtain ⟨hq, hleft⟩ := List.cons_subset.mp hleft
    exact (leaves_moveTable (hnames p hp) (hnames q hq) hwanted hsame).mono fun _ _ hlast =>
      ⟨hleft, hlast.trans hafter⟩
  exact (leaves_forM_steps (fun left after => left ⊆ existing ∧ after p.table = before p.table)
    hstep ⟨List.Subset.refl _, rfl⟩).mono fun _ _ hafter => hafter.2

/-- While the record of its content table cannot be read, no update of a type succeeds, whatever the
new type and whichever statements fail. -/
theorem leaves_update_unreadable (hold : old.compose filters = .ok (p :: rest))
    (hunreadable : ¬ Readable (before p.table)) (new : TypeDescriptor) :
    R.Leaves before (ContentType.update naming filters new old) fun _ _ => False := by
  obtain ⟨_, _, hfirst, hcontent⟩ := TypeDescriptor.exists_content_of_compose hold
  obtain ⟨rfl, rfl⟩ := List.cons.inj hfirst
  unfold ContentType.update
  refine (moves_ofExcept (Or.inl trivial)).leaves.bind fun _ wanted hnew => ?_
  obtain ⟨hsame, hcomposed⟩ := hnew
  rw [hsame, hold, Operation.ofExcept_ok_bind]
  obtain ⟨t, others, rfl, hrole⟩ := TypeDescriptor.exists_content_of_compose hcomposed
  have ht : t.table = p.role.tableName new.slug := by
    rw [TypeDescriptor.table_of_compose hcomposed List.mem_cons_self, hrole, hcontent]
  have hwanted : ∃ u ∈ t :: others, u.role = p.role :=
    ⟨t, List.mem_cons_self, hrole.trans hcontent.symm⟩
  by_cases hkept : p.role.tableName new.slug = p.table
  · -- the record is left as it is, and read when the first wanted table is reconciled
    refine (leaves_moveTables hold List.mem_cons_self hwanted hkept).bind fun after _ hafter => ?_
    have hstill : ¬ Readable (after t.table) := by
      rw [ht, hkept, hafter]
      exact hunreadable
    exact (leaves_reconcile_unreadable hstill t.schema).stop.stop
  · -- the record is read when the table is renamed, which comes first
    have hrename : R.Leaves before (ContentType.moveTable naming (t :: others) new.slug p)
        fun _ _ => False := by
      unfold ContentType.moveTable
      simp only [hasRole_iff_any.mpr hwanted, Bool.not_true, Bool.false_eq_true, if_false, ne_eq,
        hkept, not_false_eq_true, if_true]
      exact leaves_renameTable_unreadable hunreadable _
    exact hrename.stop.stop

end Unreadable

end ContentTables
