import ContentTables.Proofs.Store.Views

/-!
# Only valid schemas are recorded

A schema is validated before it is recorded, or it is the one of a record that was there. What is
recorded may read back with other defaults, which validity does not look at. Memory may hold the
schema of a table that has no record; it is forgotten before such a record could be written.

* `TableSchema.columnFault?_eq_none_iff`, `TableSchema.length_autoIncrement_le` : what validity says
  of each column, and that there is one generated column at most;
* `TableSchema.fault?_of_parse?` : a valid schema is valid when it is read back;
* `StoreView.Sound` : the records hold valid schemas, and so does memory for tables with a record;
* `Sound.write`, `Sound.replace`, `Sound.found`, `Sound.looksUp` : what writing and looking up do to
  it;
* `preserves_createTable`, `preserves_applyDiff`, `preserves_reconcile` and their like : every
  migration preserves it, wherever it fails;
* `records_valid` : whatever is asked for, only valid schemas are recorded.
-/

namespace ContentTables

open Function (update)
open Records (encode decode)

namespace TableSchema

open OrderedMap

theorem columnFault?_eq_none_iff {name : String} {c : Column} :
    columnFault? name c = none ↔ isBlankText name = false ∧
      (c.autoIncrement = true → c.primary = true ∧ c.kind.isInteger = true) ∧
      (c.kind = .enum → c.values ≠ []) := by
  unfold columnFault?
  cases isBlankText name <;> cases c.autoIncrement <;> cases c.primary <;>
    cases c.kind.isInteger <;> simp

/-- A generated column is the primary one. -/
theorem length_autoIncrement_le {s : TableSchema} (h : s.fault? = none) :
    (s.namesWhere (·.autoIncrement)).length ≤ 1 := by
  obtain ⟨hone, hcolumns⟩ := fault?_eq_none_iff.mp h
  have hsubset : s.namesWhere (·.autoIncrement) ⊆ s.namesWhere (·.primary) := by
    intro name hname
    obtain ⟨c, hget, hauto⟩ := mem_namesWhere.mp hname
    have hkey := (columnFault?_eq_none_iff.mp (hcolumns name c hget)).2.1 hauto
    exact mem_namesWhere.mpr ⟨c, hget, hkey.1⟩
  exact ((nodup_namesWhere s _).subperm hsubset).length_le.trans hone

/-- Only defaults read back otherwise. -/
theorem fault?_of_parse? {s t : TableSchema} (hs : s.fault? = none)
    (h : parse? s.text = some t) : t.fault? = none := by
  have hcolumns := parse?_text_eq_some_iff.mp h
  refine fault?_of_columns hs fun name d hget => ?_
  obtain ⟨c, hc, hread⟩ := hcolumns.lookup_right hget
  rw [Column.readBack?_eq] at hread
  obtain ⟨default, _, rfl⟩ := Option.map_eq_some_iff.mp hread
  exact ⟨c, hc, rfl, rfl⟩

end TableSchema

/-- The record, if there is one, is the text of a valid schema. -/
def Records.Valid (record : Option Row) : Prop :=
  ∀ row, record = some row → ∃ schema : TableSchema, schema.fault? = none ∧ row = encode schema

theorem Records.valid_encode {schema : TableSchema} (h : schema.fault? = none) :
    Valid (some (encode schema)) := by
  rintro _ ⟨⟩
  exact ⟨schema, h, rfl⟩

theorem Records.valid_none : Valid none := nofun

theorem Records.Valid.found {record : Option Row} {schema : TableSchema} (h : Valid record)
    (hfound : RecordTable.Found record (some schema)) : schema.fault? = none := by
  obtain ⟨row, hrow, hdecoded⟩ := hfound
  obtain ⟨written, hvalid, rfl⟩ := h row hrow
  exact TableSchema.fault?_of_parse? hvalid (Records.parse?_of_decode_encode hdecoded)

namespace StoreView

structure Sound (v : StoreView) : Prop where
  recorded : ∀ table, Records.Valid (v.records table)
  remembered : ∀ table schema, v.schemas table = some schema → v.records table ≠ none →
    schema.fault? = none

namespace Sound

variable {v v' : StoreView} {table key : String} {schema : TableSchema}

theorem forget (h : v.Sound) (table : String) : (v.forget table).Sound := by
  refine ⟨h.recorded, fun key schema hcached hthere => ?_⟩
  change update v.schemas table none key = some schema at hcached
  rw [Function.update_apply] at hcached
  split at hcached
  · exact nomatch hcached
  · exact h.remembered key schema hcached hthere

theorem write {record : Option Row} (h : v.Sound) (hvalid : Records.Valid record) :
    (v.write table record).Sound := by
  constructor
  · intro key
    show Records.Valid (update v.records table record key)
    rw [Function.update_apply]
    split
    · exact hvalid
    · exact h.recorded key
  · intro key schema hcached hthere
    change update v.schemas table none key = some schema at hcached
    change update v.records table record key ≠ none at hthere
    rw [Function.update_apply] at hcached hthere
    split at hcached
    · exact nomatch hcached
    · rename_i hother
      rw [if_neg hother] at hthere
      exact h.remembered key schema hcached hthere

theorem put (h : v.Sound) (hvalid : schema.fault? = none) : (v.put table schema).Sound :=
  h.write (Records.valid_encode hvalid)

theorem drop (h : v.Sound) : (v.drop table).Sound := h.write Records.valid_none

/-- The schema need be valid only if there is something to replace. -/
theorem replace (h : v.Sound) (hvalid : v.records key ≠ none → schema.fault? = none) :
    (v.replace key table schema).Sound := by
  unfold StoreView.replace
  split
  · rename_i hthere
    exact h.drop.put (hvalid (Option.isSome_iff_ne_none.mp hthere))
  · exact (h.forget key).forget table

theorem found (h : v.Sound) {found : Option TableSchema}
    (hfound : found = v.schemas table ∨ RecordTable.Found (v.records table) found)
    (hsome : found = some schema) (hthere : v.records table ≠ none) : schema.fault? = none := by
  subst hsome
  rcases hfound with hcached | hrecorded
  · exact h.remembered table schema hcached.symm hthere
  · exact (h.recorded table).found hrecorded

theorem looksUp (h : v.Sound) (hlooks : LooksUp table v v') : v'.Sound := by
  obtain ⟨hrecords, hschemas⟩ := hlooks
  constructor
  · rw [hrecords]
    exact h.recorded
  · intro key schema hcached hthere
    rw [hrecords] at hthere
    rcases hschemas key schema hcached with hcached | ⟨_, hrecorded⟩
    · exact h.remembered key schema hcached hthere
    · exact (h.recorded key).found hrecorded

end Sound

end StoreView

namespace RecordTable

variable {σ : Type} {naming : TableNaming} {db : Database σ} {R : RecordTable naming db}
  {v : StoreView}

open StoreView (Sound)

theorem preserves_createTable (table : String) (schema : TableSchema) :
    R.Preserves Sound (Migration.createTable naming table schema) := by
  intro v hv
  unfold Migration.createTable
  refine leads_ofExcept_bind hv fun _ hvalidated => ?_
  refine (leads_define hv (Definition.defines_createTable naming table schema)).still fun _ => ?_
  refine ((leads_put (hv.forget table)).mono ?_ fun _ h => h).finish
  rintro _ _ ⟨_, rfl⟩
  exact hv.put (TableSchema.validate_eq_ok_iff.mp hvalidated)

theorem preserves_applyDiff (table : String) (stored : TableSchema) (diff : SchemaDiff) :
    R.Preserves Sound (Migration.applyDiff naming table stored diff) := by
  intro v hv
  unfold Migration.applyDiff
  refine leads_ofExcept_bind hv fun _ hvalidated => ?_
  have hrecord : R.Leads v (do
      Records.replace naming table table (stored.merge diff)
      Migration.finish (.altered table diff) : Operation Unit) (fun _ => Sound) Sound := by
    refine ((leads_replace ((hv.forget table).forget table)).mono ?_ fun _ h => h).finish
    rintro _ _ rfl
    exact hv.replace fun _ => TableSchema.validate_eq_ok_iff.mp hvalidated
  refine (leads_dropIndexes table stored diff.dropped).still fun _ => ?_
  split
  · rename_i sql hsql
    exact (leads_define hv (Definition.defines_alterTable? naming hsql)).still fun _ => hrecord
  · exact hrecord

theorem preserves_reconcile (table : String) (desired : TableSchema) :
    R.Preserves Sound (Migration.reconcile naming table desired) := by
  intro v hv
  unfold Migration.reconcile
  refine leads_ofExcept_bind hv fun _ _ => ?_
  refine ((leads_find? table).mono (fun _ _ h => h) fun _ h => hv.looksUp h).bind ?_
  rintro found v' ⟨hlooks, _⟩
  have hv' := hv.looksUp hlooks
  cases found with
  | none => exact (preserves_createTable table desired v' hv').bind fun _ _ h => leads_pure h
  | some stored =>
    simp only
    split
    · exact leads_pure hv'
    · exact (preserves_applyDiff table stored _ v' hv').bind fun _ _ h => leads_pure h

theorem preserves_updateTable (table : String) (diff : SchemaDiff) :
    R.Preserves Sound (Migration.updateTable naming table diff) := by
  intro v hv
  unfold Migration.updateTable
  refine ((leads_get table).mono (fun _ _ h => h) fun _ h => hv.looksUp h).bind ?_
  rintro stored v' ⟨hlooks, _⟩
  exact preserves_applyDiff table stored diff v' (hv.looksUp hlooks)

theorem preserves_renameTable (source target : String) :
    R.Preserves Sound (Migration.renameTable naming source target) := by
  intro v hv
  unfold Migration.renameTable
  refine ((leads_get source).mono (fun _ _ h => h) fun _ h => hv.looksUp h).bind ?_
  rintro schema v' ⟨hlooks, hfound⟩
  have hv' := hv.looksUp hlooks
  have hvalid : v'.records source ≠ none → schema.fault? = none := by
    rw [hlooks.1]
    exact hv.found hfound rfl
  refine (leads_define hv' (Definition.defines_renameTable naming source target)).still fun _ => ?_
  refine ((leads_replace ((hv'.forget source).forget target)).mono ?_ fun _ h => h).finish
  rintro _ _ rfl
  exact hv'.replace hvalid

theorem preserves_dropTable (table : String) :
    R.Preserves Sound (Migration.dropTable naming table) := by
  intro v hv
  unfold Migration.dropTable
  refine (leads_define hv (Definition.defines_dropTable naming table)).still fun _ => ?_
  refine ((leads_drop (hv.forget table)).mono ?_ fun _ h => h).finish
  rintro _ _ rfl
  exact hv.drop

theorem preserves_sound (call : MigrationCall) : R.Preserves Sound (call.operation naming) := by
  cases call with
  | create table schema => exact preserves_createTable table schema
  | reconcile table desired =>
    exact (preserves_reconcile table desired).bind fun _ => preserves_pure ()
  | update table diff => exact preserves_updateTable table diff
  | rename source target => exact preserves_renameTable source target
  | drop table => exact preserves_dropTable table

end RecordTable

/-- Whatever is asked of a store without records, wherever it fails, and whatever was in memory:
each record is the text of a valid schema. -/
theorem records_valid {σ : Type} {naming : TableNaming} {db : Database σ}
    (R : RecordTable naming db) (w : World σ) (hempty : ∀ table, R.recorded w table = none)
    (requests : List TableRequest) :
    ∀ table row, R.recorded ((session naming requests).run db w).2 table = some row →
      ∃ schema : TableSchema, row = encode schema ∧ schema.validate = .ok () ∧
        (schema.namesWhere (·.primary)).length ≤ 1 ∧
        (schema.namesWhere (·.autoIncrement)).length ≤ 1 ∧
        ∀ name c, schema.get? name = some c → isBlankText name = false ∧
          (c.autoIncrement = true → c.primary = true ∧ c.kind.isInteger = true) ∧
          (c.kind = .enum → c.values ≠ []) := by
  intro table row hrow
  have hstart : (R.view w).Sound := by
    refine ⟨fun table row hrow => ?_, fun table _ _ hthere => absurd (hempty table) hthere⟩
    exact nomatch (hempty table).symm.trans hrow
  have hsound := RecordTable.preserved_by_session RecordTable.preserves_sound requests hstart
  obtain ⟨schema, hvalid, hencoded⟩ := hsound.recorded table row hrow
  obtain ⟨hone, hcolumns⟩ := TableSchema.fault?_eq_none_iff.mp hvalid
  exact ⟨schema, hencoded, TableSchema.validate_eq_ok_iff.mpr hvalid, hone,
    TableSchema.length_autoIncrement_le hvalid, fun name c hget =>
      TableSchema.columnFault?_eq_none_iff.mp (hcolumns name c hget)⟩

/-- The first attempt creates the table and cannot record it. -/
def createdTwice : List TableRequest :=
  [.migrate (.create "t" Records.numbersTable), .migrate (.create "t" Records.numbersTable)]

theorem records_valid_createdTwice : ∃ e w row,
    (session {} createdTwice).run (scriptedUnder {} true) unrecordable = ([.error e, .ok ()], w) ∧
    (scriptedRecords {} true).recorded w "t" = some row ∧
    ∃ schema : TableSchema, row = encode schema ∧ schema.validate = .ok () := by
  have hempty : ∀ table, (scriptedRecords {} true).recorded unrecordable table = none :=
    fun _ => rfl
  have hthere : (scriptedRecords {} true).recorded
      ((session {} createdTwice).run (scriptedUnder {} true) unrecordable).2 "t" =
        some (encode Records.numbersTable) := rfl
  obtain ⟨schema, hencoded, hpasses, _⟩ := records_valid (scriptedRecords {} true) unrecordable
    hempty createdTwice "t" _ hthere
  exact ⟨_, _, _, rfl, hthere, schema, hencoded, hpasses⟩

end ContentTables
