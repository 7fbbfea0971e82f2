import ContentTables.ContentType.Lifecycle
import ContentTables.Proofs.ContentType.Composed
import ContentTables.Proofs.Store.Accepting
import ContentTables.Store.CoreTables

/-!
# Which refusals come too late

Every operation of the store is refused before it writes anything, except that a content type has
several tables: an operation on a type may have changed some of them when the schema of a later one
turns out to be invalid.

* `Request`, `Request.operation` : the operations;
* `Operation.RefusedUnchanged` : when the operation is refused, nothing was written;
* `Request.RefusedLate` : tables are written first, and then a schema is refused;
* `refused_unchanged_iff` : this is the one way in which a refusal can leave something changed.
-/

namespace ContentTables

/-! ## Requests -/

inductive Request where
  | createTable (table : String) (schema : TableSchema)
  | reconcile (table : String) (desired : TableSchema)
  | updateTable (table : String) (diff : SchemaDiff)
  | renameTable (source target : String)
  | dropTable (table : String)
  | insert (now table : String) (row : Row)
  | update (table : String) (row : Row) (condition : Condition)
  | delete (table : String) (condition : Condition) (offset limit : Option UInt64)
  | get (q : SelectQuery)
  | join (q : JoinQuery)
  | installType (d : TypeDescriptor)
  | updateType (new old : TypeDescriptor)
  | uninstallType (d : TypeDescriptor)
  | installCoreTables

/-- The operation, its result left out. -/
def Request.operation (naming : TableNaming) (filters : TableFilters) : Request → Operation Unit
  | .createTable table schema => Migration.createTable naming table schema
  | .reconcile table desired => do
    let _ ← Migration.reconcile naming table desired
  | .updateTable table diff => Migration.updateTable naming table diff
  | .renameTable source target => Migration.renameTable naming source target
  | .dropTable table => Migration.dropTable naming table
  | .insert now table row => do
    let _ ← Rows.insert naming now table row
  | .update table row condition => do
    let _ ← Rows.update naming table row condition
  | .delete table condition offset limit => do
    let _ ← Rows.delete naming table condition offset limit
  | .get q => do
    let _ ← Rows.get naming q
  | .join q => do
    let _ ← Rows.join naming q
  | .installType d => ContentType.install naming filters d
  | .updateType new old => ContentType.update naming filters new old
  | .uninstallType d => ContentType.uninstall naming filters d
  | .installCoreTables => CoreTables.install naming

/-- After a validation error only `SELECT`s have been sent, and whatever `SELECT`s leave as it is
in the database is as before. -/
def Operation.RefusedUnchanged {σ α : Type} (db : Database σ) (w : World σ) (x : Operation α) :
    Prop :=
  ∀ e, (x.exec db w).1 = .error e → e.isValidation = true →
    (∀ effect ∈ x.run.performed db w, effect.Reads) ∧
      ∀ (ρ : Type) (records : σ → ρ), (∀ state s, records (db.fetch state s).2 = records state) →
        records (x.exec db w).2.database = records w.database

/-- The schema of a table is invalid, and it is looked at when other tables have been written: one
created or reconciled before it, or one renamed or dropped. -/
def Request.RefusedLate (filters : TableFilters) : Request → Prop
  | .installType d => ∃ t rest, d.compose filters = .ok (t :: rest) ∧
    t.schema.fault? = none ∧ ∃ u ∈ rest, u.schema.fault? ≠ none
  | .updateType new old => ∃ t rest existing, new.compose filters = .ok (t :: rest) ∧
    old.compose filters = .ok existing ∧ (∃ u ∈ t :: rest, u.schema.fault? ≠ none) ∧
    (t.schema.fault? = none ∨ new.slug ≠ old.slug ∨ (old.comments = true ∧ new.comments = false))
  | _ => False

namespace Operation

theorem RefusesFirst.refusedUnchanged {σ α : Type} {x : Operation α} (h : x.RefusesFirst)
    (db : Database σ) (w : World σ) : x.RefusedUnchanged db w :=
  fun e he hvalidation => Program.RefusesFirst.unchanged h db w ⟨e, he, hvalidation⟩

/-- A refusal behind a write. -/
theorem Refuses.not_refusedUnchanged {α : Type} {rows : List Row} {k : Nat} {x : Operation α}
    {w : World Nat} (h : x.Refuses rows (k + 1) w) :
    ¬ x.RefusedUnchanged (.accepting rows) w := by
  obtain ⟨⟨e, he, hvalidation⟩, hwritten⟩ := h
  intro hunchanged
  obtain ⟨_, hrecords⟩ := hunchanged e he hvalidation
  have hsame := hrecords Nat id fun _ _ => rfl
  simp only [id_eq] at hsame
  omega

end Operation

open Operation

/-! ## Moving the tables of a type -/

section Moves
variable {naming : TableNaming} {filters : TableFilters} {new old : TypeDescriptor}
  {wanted existing : List ComposedTable}

/-- A table that keeps its name and its role stays as it is. -/
theorem moveTable_eq_pure {slug : String} {previous : ComposedTable}
    (hrole : ∃ t ∈ wanted, t.role = previous.role)
    (htable : previous.table = previous.role.tableName slug) :
    ContentType.moveTable naming wanted slug previous = pure () := by
  have hwanted : (wanted.any (·.role == previous.role)) = true := by
    obtain ⟨t, ht, hsame⟩ := hrole
    exact List.any_eq_true.mpr ⟨t, ht, beq_iff_eq.mpr hsame⟩
  unfold ContentType.moveTable
  simp [hwanted, htable]

theorem forM_eq_pure {τ : Type} {f : τ → Operation Unit} {ts : List τ}
    (h : ∀ t ∈ ts, f t = pure ()) : ts.forM f = pure () := by
  induction ts with
  | nil => rfl
  | cons t rest ih =>
    show (f t >>= fun _ => rest.forM f) = pure ()
    rw [h t (List.mem_cons_self ..), pure_bind]
    exact ih fun u hu => h u (List.mem_cons_of_mem t hu)

/-- With the slug as it was, and comments left on, no table is moved. -/
theorem moves_eq_pure (hwanted : new.compose filters = .ok wanted)
    (hexisting : old.compose filters = .ok existing) (hslug : new.slug = old.slug)
    (hcomments : old.comments = true → new.comments = true) :
    existing.forM (ContentType.moveTable naming wanted new.slug) = pure () := by
  refine forM_eq_pure fun previous hprevious => moveTable_eq_pure ?_ ?_
  · have hrole := (TypeDescriptor.hasRole_of_compose hexisting previous.role).mp
      ⟨previous, hprevious, rfl⟩
    exact (TypeDescriptor.hasRole_of_compose hwanted previous.role).mpr fun h => hcomments (hrole h)
  · rw [hslug]
    exact TypeDescriptor.table_of_compose hexisting hprevious

theorem neverRefuses_moveTable (slug : String) (previous : ComposedTable) :
    (ContentType.moveTable naming wanted slug previous).NeverRefuses := by
  unfold ContentType.moveTable
  simp only
  split
  · exact neverRefuses_dropTable naming _
  · split
    · exact neverRefuses_renameTable naming _ _
    · exact neverRefuses_pure ()

variable {rows : List Row} {w : World Nat}

theorem succeeds_moveTable
    (hrows : ∀ record ∈ rows.head?, ∃ schema, Records.decode record = .ok schema)
    (hsome : rows ≠ []) (slug : String) (previous : ComposedTable) :
    (ContentType.moveTable naming wanted slug previous).Succeeds rows 0 w := by
  unfold ContentType.moveTable
  simp only
  split
  · exact succeeds_dropTable.mono (Nat.zero_le 2)
  · split
    · exact (succeeds_renameTable naming _ hrows hsome _).mono (Nat.zero_le 2)
    · exact succeeds_pure ()

/-- A table whose name or role goes is dropped or renamed. -/
theorem succeeds_moveTable_writing
    (hrows : ∀ record ∈ rows.head?, ∃ schema, Records.decode record = .ok schema)
    (hsome : rows ≠ []) {slug : String} {previous : ComposedTable}
    (h : previous.role.tableName slug ≠ previous.table ∨ ¬ ∃ t ∈ wanted, t.role = previous.role) :
    (ContentType.moveTable naming wanted slug previous).Succeeds rows 2 w := by
  unfold ContentType.moveTable
  simp only
  split
  · exact succeeds_dropTable
  · rename_i hkept
    split
    · exact succeeds_renameTable naming _ hrows hsome _
    · rename_i hsame
      simp only [Bool.not_eq_true, Bool.not_eq_false', List.any_eq_true, beq_iff_eq] at hkept
      rcases h with hmoved | hgone
      · exact absurd hmoved hsame
      · exact absurd hkept hgone

theorem tableName_inj {role : TableRole} {s t : String} (h : role.tableName s = role.tableName t) :
    s = t := by
  unfold TableRole.tableName at h
  rw [String.append_assoc, String.append_assoc] at h
  exact String.append_left_inj _ |>.mp h

end Moves

/-! ## Operations on types -/

section Types
variable {naming : TableNaming} {filters : TableFilters} {d new old : TypeDescriptor}
  {tables : List ComposedTable}

def reconcileTable (naming : TableNaming) (t : ComposedTable) : Operation Unit := do
  let _ ← Migration.reconcile naming t.table t.schema

theorem neverRefuses_reconcileTable {t : ComposedTable} (h : t.schema.fault? = none) :
    (reconcileTable naming t).NeverRefuses :=
  NeverRefuses.bind (neverRefuses_reconcile naming h t.table) fun _ => neverRefuses_pure ()

/-- What is behind an invalid schema does not matter. -/
theorem refusesFirst_of_fault {α β : Type} {schema : TableSchema} (h : schema.fault? ≠ none)
    {g : Unit → Operation α} {f : α → Operation β} :
    ((ofExcept schema.validate >>= g) >>= f).RefusesFirst := by
  rw [bind_assoc]
  exact refusesFirst_ofExcept_bind fun _ hvalid =>
    absurd (TableSchema.validate_eq_ok_iff.mp hvalid) h

theorem refusesFirst_install (h : ¬ (Request.installType d).RefusedLate filters) :
    (ContentType.install naming filters d).RefusesFirst := by
  unfold ContentType.install
  refine refusesFirst_ofExcept_bind fun tables hcomposed => ?_
  by_cases hall : ∀ t ∈ tables, t.schema.fault? = none
  · refine NeverRefuses.refusesFirst (neverRefuses_forM fun t ht => ?_)
    exact neverRefuses_createTable naming (hall t ht) t.table
  · simp only [not_forall] at hall
    obtain ⟨u, hu, hfault⟩ := hall
    cases tables with
    | nil => exact absurd hu nofun
    | cons t rest =>
      have hfirst : t.schema.fault? ≠ none := by
        intro hvalid
        rcases List.mem_cons.mp hu with rfl | hu
        · exact hfault hvalid
        · exact h ⟨t, rest, hcomposed, hvalid, u, hu, hfault⟩
      exact refusesFirst_of_fault hfirst

theorem refusesFirst_update_type (h : ¬ (Request.updateType new old).RefusedLate filters) :
    (ContentType.update naming filters new old).RefusesFirst := by
  unfold ContentType.update
  refine refusesFirst_ofExcept_bind fun wanted hwanted => ?_
  refine refusesFirst_ofExcept_bind fun existing hexisting => ?_
  by_cases hall : ∀ t ∈ wanted, t.schema.fault? = none
  · refine NeverRefuses.refusesFirst (NeverRefuses.bind ?_ fun _ => ?_)
    · exact neverRefuses_forM fun previous _ => neverRefuses_moveTable new.slug previous
    · exact neverRefuses_forM fun t ht => neverRefuses_reconcileTable (hall t ht)
  · simp only [not_forall] at hall
    obtain ⟨u, hu, hfault⟩ := hall
    cases wanted with
    | nil => exact absurd hu nofun
    | cons t rest =>
      have hearly : ¬ (t.schema.fault? = none ∨ new.slug ≠ old.slug ∨
          (old.comments = true ∧ new.comments = false)) :=
        fun hlate => h ⟨t, rest, existing, hwanted, hexisting, ⟨u, hu, hfault⟩, hlate⟩
      simp only [not_or, not_not, not_and, Bool.not_eq_false] at hearly
      obtain ⟨hfirst, hslug, hcomments⟩ := hearly
      rw [moves_eq_pure hwanted hexisting hslug hcomments, pure_bind]
      show ((Migration.reconcile naming t.table t.schema >>= fun _ => pure ()) >>= _).RefusesFirst
      rw [bind_assoc]
      exact refusesFirst_of_fault hfirst

theorem refusesFirst_uninstall : (ContentType.uninstall naming filters d).RefusesFirst := by
  unfold ContentType.uninstall
  refine refusesFirst_ofExcept_bind fun tables _ => NeverRefuses.refusesFirst ?_
  exact neverRefuses_forM fun t _ => neverRefuses_dropTable naming t.table

theorem coreTables_valid : ∀ entry ∈ coreTables, entry.2.fault? = none := by
  have hvalid : coreTables.all (fun entry => entry.2.isValid) = true := by decide
  exact fun entry hentry => Option.isNone_iff_eq_none.mp (List.all_eq_true.mp hvalid entry hentry)

theorem neverRefuses_coreTables : (CoreTables.install naming).NeverRefuses := by
  unfold CoreTables.install
  refine NeverRefuses.bind (neverRefuses_fetch _) fun _ => ?_
  refine NeverRefuses.bind ?_ fun _ => ?_
  · exact NeverRefuses.bind (neverRefuses_execute _) fun _ => neverRefuses_pure ()
  · refine neverRefuses_forM fun entry hentry => ?_
    exact NeverRefuses.bind (neverRefuses_reconcile naming (coreTables_valid entry hentry) _)
      fun _ => neverRefuses_pure ()

end Types

theorem Request.refusesFirst (naming : TableNaming) (filters : TableFilters) {request : Request}
    (h : ¬ request.RefusedLate filters) : (request.operation naming filters).RefusesFirst := by
  cases request with
  | createTable table schema => exact refusesFirst_createTable naming table schema
  | reconcile table desired =>
    exact (refusesFirst_reconcile naming table desired).bind fun _ => neverRefuses_pure ()
  | updateTable table diff => exact refusesFirst_updateTable naming table diff
  | renameTable source target => exact (neverRefuses_renameTable naming source target).refusesFirst
  | dropTable table => exact (neverRefuses_dropTable naming table).refusesFirst
  | insert now table row =>
    exact (refusesFirst_insert naming now table row).bind fun _ => neverRefuses_pure ()
  | update table row condition =>
    exact (refusesFirst_update naming table row condition).bind fun _ => neverRefuses_pure ()
  | delete table condition offset limit =>
    refine RefusesFirst.bind ?_ fun _ => neverRefuses_pure ()
    exact (neverRefuses_delete naming table condition offset limit).refusesFirst
  | get q => exact (neverRefuses_rows naming q).refusesFirst.bind fun _ => neverRefuses_pure ()
  | join q => exact (refusesFirst_join naming q).bind fun _ => neverRefuses_pure ()
  | installType d => exact refusesFirst_install h
  | updateType new old => exact refusesFirst_update_type h
  | uninstallType d => exact refusesFirst_uninstall
  | installCoreTables => exact neverRefuses_coreTables.refusesFirst

/-! ## Late refusals happen -/

section Late
variable {naming : TableNaming} {filters : TableFilters} {d new old : TypeDescriptor}
  {rows : List Row}

theorem refuses_createTables {tables : List ComposedTable}
    (h : ∃ t ∈ tables, t.schema.fault? ≠ none) (w : World Nat) :
    (tables.forM fun t => Migration.createTable naming t.table t.schema).Refuses rows 0 w := by
  obtain ⟨u, hu, hfault⟩ := h
  refine refuses_forM (fun t _ w => ?_) ⟨u, hu, fun w => refuses_createTable hfault⟩
  by_cases hvalid : t.schema.fault? = none
  · exact Or.inl ((succeeds_createTable hvalid).mono (Nat.zero_le 2))
  · exact Or.inr (refuses_createTable hvalid)

theorem refuses_reconcileTables {tables : List ComposedTable}
    (hrows : ∀ record ∈ rows.head?, ∃ schema, Records.decode record = .ok schema)
    (h : ∃ t ∈ tables, t.schema.fault? ≠ none) (w : World Nat) :
    (tables.forM (reconcileTable naming)).Refuses rows 0 w := by
  obtain ⟨u, hu, hfault⟩ := h
  refine refuses_forM (fun t _ w => ?_) ⟨u, hu, fun w => (refuses_reconcile hfault).bind⟩
  by_cases hvalid : t.schema.fault? = none
  · refine Or.inl (Succeeds.bind (k := 0) (l := 0) ?_ fun _ w => succeeds_pure ())
    exact succeeds_reconcile naming t.table hrows hvalid
  · exact Or.inr (refuses_reconcile hvalid).bind

theorem refuses_install (h : (Request.installType d).RefusedLate filters) (w : World Nat) :
    (ContentType.install naming filters d).Refuses rows 2 w := by
  obtain ⟨t, rest, hcomposed, hvalid, hinvalid⟩ := h
  unfold ContentType.install
  rw [hcomposed]
  show (Migration.createTable naming t.table t.schema >>= fun _ =>
    rest.forM fun t => Migration.createTable naming t.table t.schema).Refuses rows 2 w
  exact Succeeds.bind_refuses (k := 2) (l := 0) (succeeds_createTable hvalid) fun _ w =>
    refuses_createTables hinvalid w

/-- The record of a table without columns. -/
def emptyRecord : Row := ∅

theorem decode_emptyRecord : ∀ record ∈ [emptyRecord].head?,
    ∃ schema, Records.decode record = .ok schema := by
  intro record hrecord
  cases hrecord
  exact ⟨∅, rfl⟩

/-- Tables that are renamed or dropped come first. -/
theorem refuses_update_moving {t : ComposedTable} {rest existing : List ComposedTable}
    (hwanted : new.compose filters = .ok (t :: rest)) (hexisting : old.compose filters = .ok existing)
    (hinvalid : ∃ u ∈ t :: rest, u.schema.fault? ≠ none)
    (hmoved : new.slug ≠ old.slug ∨ (old.comments = true ∧ new.comments = false)) (w : World Nat) :
    (ContentType.update naming filters new old).Refuses [emptyRecord] 1 w := by
  have hmoves : ∃ previous ∈ existing, ∀ w,
      (ContentType.moveTable naming (t :: rest) new.slug previous).Succeeds [emptyRecord] 1 w := by
    rcases hmoved with hslug | ⟨hold, hnew⟩
    · obtain ⟨previous, hprevious, hrole⟩ :=
        (TypeDescriptor.hasRole_of_compose hexisting .content).mpr nofun
      have htable := TypeDescriptor.table_of_compose hexisting hprevious
      refine ⟨previous, hprevious, fun w => Succeeds.mono ?_ (Nat.le_succ 1)⟩
      refine succeeds_moveTable_writing decode_emptyRecord nofun (Or.inl fun hsame => hslug ?_)
      exact tableName_inj (hsame.trans htable)
    · obtain ⟨previous, hprevious, hrole⟩ :=
        (TypeDescriptor.hasRole_of_compose hexisting .comments).mpr fun _ => hold
      refine ⟨previous, hprevious, fun w => Succeeds.mono ?_ (Nat.le_succ 1)⟩
      refine succeeds_moveTable_writing decode_emptyRecord nofun (Or.inr fun hkept => ?_)
      rw [hrole] at hkept
      have hon := (TypeDescriptor.hasRole_of_compose hwanted .comments).mp hkept rfl
      exact absurd (hnew.symm.trans hon) nofun
  unfold ContentType.update
  rw [hwanted, hexisting]
  show (existing.forM (ContentType.moveTable naming (t :: rest) new.slug) >>= fun _ =>
    (t :: rest).forM (reconcileTable naming)).Refuses [emptyRecord] 1 w
  refine Succeeds.bind_refuses (k := 1) (l := 0) ?_ fun _ w => ?_
  · refine succeeds_forM_writing (fun previous _ w => ?_) hmoves
    exact succeeds_moveTable decode_emptyRecord nofun new.slug previous
  · exact refuses_reconcileTables decode_emptyRecord hinvalid w

/-- No table is moved, and the first one is created. -/
theorem refuses_update_creating {t : ComposedTable} {rest existing : List ComposedTable}
    (hwanted : new.compose filters = .ok (t :: rest)) (hexisting : old.compose filters = .ok existing)
    (hinvalid : ∃ u ∈ t :: rest, u.schema.fault? ≠ none) (hvalid : t.schema.fault? = none)
    (hslug : new.slug = old.slug) (hcomments : old.comments = true → new.comments = true) :
    (ContentType.update naming filters new old).Refuses [] 2 (coldWorld 0) := by
  have hlater : ∃ u ∈ rest, u.schema.fault? ≠ none := by
    obtain ⟨u, hu, hfault⟩ := hinvalid
    rcases List.mem_cons.mp hu with rfl | hu
    · exact absurd hvalid hfault
    · exact ⟨u, hu, hfault⟩
  unfold ContentType.update
  rw [hwanted, hexisting]
  show (existing.forM (ContentType.moveTable naming (t :: rest) new.slug) >>= fun _ =>
    (t :: rest).forM (reconcileTable naming)).Refuses [] 2 (coldWorld 0)
  rw [moves_eq_pure hwanted hexisting hslug hcomments, pure_bind]
  have hfirst : (reconcileTable naming t).Succeeds [] 2 (coldWorld 0) :=
    Succeeds.bind (k := 2) (l := 0) (succeeds_reconcile_cold hvalid 0) fun _ w => succeeds_pure ()
  have hnone : ∀ record ∈ ([] : List Row).head?, ∃ schema, Records.decode record = .ok schema :=
    fun _ h => absurd h (Option.not_mem_none _)
  exact hfirst.bind_refuses fun _ w => refuses_reconcileTables hnone hlater w

theorem Request.exists_late (naming : TableNaming) {request : Request}
    (h : request.RefusedLate filters) :
    ∃ rows k, (request.operation naming filters).Refuses rows (k + 1) (coldWorld 0) := by
  cases request with
  | installType d => exact ⟨[], 1, refuses_install h (coldWorld 0)⟩
  | updateType new old =>
    obtain ⟨t, rest, existing, hwanted, hexisting, hinvalid, hlate⟩ := h
    by_cases hmoved : new.slug ≠ old.slug ∨ (old.comments = true ∧ new.comments = false)
    · exact ⟨_, 0, refuses_update_moving hwanted hexisting hinvalid hmoved (coldWorld 0)⟩
    · have hvalid := hlate.resolve_right hmoved
      simp only [not_or, not_not, not_and, Bool.not_eq_false] at hmoved
      exact ⟨_, 1, refuses_update_creating hwanted hexisting hinvalid hvalid hmoved.1 hmoved.2⟩
  | _ => exact h.elim

end Late

/-- A refusal leaves everything as it was, with any database and anything in memory, except for the
operations on types that look at a schema too late. -/
theorem refused_unchanged_iff (naming : TableNaming) (filters : TableFilters) (request : Request) :
    (∀ (σ : Type) (db : Database σ) (w : World σ),
      (request.operation naming filters).RefusedUnchanged db w) ↔
      ¬ request.RefusedLate filters := by
  constructor
  · intro hunchanged hlate
    obtain ⟨rows, k, hrefuses⟩ := Request.exists_late naming hlate
    exact hrefuses.not_refusedUnchanged (hunchanged Nat (.accepting rows) (coldWorld 0))
  · intro h σ db w
    exact (request.refusesFirst naming filters h).refusedUnchanged db w

/-- Turns comments off and brings in a column without a name. -/
def unnamedColumn : Request :=
  .updateType { slug := "news", fields := some (.ofList [("", { kind := .string })]) }
    { slug := "news", comments := true }

/-- The comments are dropped before the column is refused. -/
theorem not_refused_unchanged_unnamedColumn :
    let x := unnamedColumn.operation {} { hook := tableSchemaHook }
    (x.exec (.accepting []) (coldWorld 0)).1 =
        .error (.invalidSchema "column names must not be empty") ∧
      .execute { sql := "DROP TABLE \x60news_comments\x60" } ∈
        x.run.performed (.accepting []) (coldWorld 0) ∧
      ¬ x.RefusedUnchanged (.accepting []) (coldWorld 0) := by
  intro x
  have hresult : (x.exec (.accepting []) (coldWorld 0)).1 =
      .error (.invalidSchema "column names must not be empty") := rfl
  have hdropped : .execute { sql := "DROP TABLE \x60news_comments\x60" } ∈
      x.run.performed (.accepting []) (coldWorld 0) := by
    have hsql : Definition.dropTable {} "news_comments" = "DROP TABLE \x60news_comments\x60" := by
      decide
    have hfirst : (x.run.performed (.accepting []) (coldWorld 0)).head? =
        some (.execute { sql := Definition.dropTable {} "news_comments" }) := rfl
    rw [hsql] at hfirst
    exact List.mem_of_head? hfirst
  refine ⟨hresult, hdropped, fun hunchanged => ?_⟩
  obtain ⟨hreads, _⟩ := hunchanged _ hresult rfl
  exact hreads _ hdropped

end ContentTables
