import ContentTables.Proofs.Store.Scripted

/-!
# What migrations do to the records

A migration that fails leaves every record as it was, whichever of its statements failed. One that
succeeds has changed the records of its own tables only, and as it says.

* `Records.Defines`, `not_writes_of_defines` : statements that define tables do not write records;
* `Definition.createTable_starts` and its like : the words that each of them starts with;
* `moves_createTable`, `moves_applyDiff`, `moves_reconcile_written`, `moves_updateTable`,
  `moves_renameTable`, `moves_dropTable` : the migrations, one by one;
* `MigrationCall`, `MigrationCall.Changes` : a call with its tables, and the change that it makes;
* `migrations_all_or_nothing` : after any number of migrations, each next one is done as a whole or
  not at all.

A schema that is recorded need not be unchanged by being written and read back, since a double in a
default may read back as its neighbour (`fractionText`). When such a schema is written again, the
record holds another default than before.
-/

namespace ContentTables

open Function (update)

variable {σ α : Type} {naming : TableNaming} {db : Database σ} {R : RecordTable naming db}
  {faults : Prop} {before : RecordMap}

/-! ## Definitions -/

namespace Records

/-- The statement starts like one that defines tables. -/
def Defines (sql : String) : Prop :=
  ∃ word ∈ ["CREATE ", "ALTER ", "DROP "], word.toList <+: sql.toList

theorem not_writes_of_defines {sql : String} (h : Defines sql) : ¬ Writes naming { sql } := by
  obtain ⟨word, hword, hstart⟩ := h
  have hapart : ∀ u ∈ ["INSERT ", "UPDATE ", "DELETE "], ¬ word.toList <+: u.toList ∧
      ¬ u.toList <+: word.toList := by
    simp only [List.mem_cons, List.not_mem_nil, or_false] at hword
    rcases hword with rfl | rfl | rfl <;> decide
  rintro (hsql | hsql | hsql)
  · exact ne_of_starts hstart (insertRecord_starts naming "" "") (hapart _ (by simp)) hsql
  · exact ne_of_starts hstart (updateRecord_starts naming "" "" "") (hapart _ (by simp)) hsql
  · exact ne_of_starts hstart (deleteRecord_starts naming "") (hapart _ (by simp)) hsql

theorem HoldsWritten.readable {record : Option Row} {desired : TableSchema}
    (h : HoldsWritten record desired) : RecordTable.Readable record := by
  obtain ⟨row, stored, hrow, hdecoded, _⟩ := h
  intro row' hrow'
  obtain rfl := Option.some.inj (hrow.symm.trans hrow')
  exact ⟨stored, hdecoded⟩

/-- What is written of a schema can be read where the schema is one that can. -/
theorem WrittenFrom.readable_iff {record : Option Row} {schema : TableSchema}
    (h : WrittenFrom record schema) (hschema : schema.Distinct) :
    RecordTable.Readable record ↔ schema.Recordable := by
  refine ⟨fun hreadable => ?_, fun hrecordable => (h.holdsWritten hrecordable).readable⟩
  obtain ⟨stored, hstored⟩ := hreadable _ h
  exact (TableSchema.recordable_iff hschema).mpr ⟨stored, parse?_of_decode_encode hstored⟩

end Records

open Records

namespace Definition

variable (naming)

theorem createTable_starts (table : String) (schema : TableSchema) :
    "CREATE TABLE ".toList <+: (createTable naming table schema).toList := by
  unfold createTable
  iterate 5 refine prefix_of_append ?_
  decide

theorem alterTable?_starts {table : String} {stored : TableSchema} {diff : SchemaDiff}
    {sql : String} (h : alterTable? naming table stored diff = some sql) :
    "ALTER TABLE ".toList <+: sql.toList := by
  unfold alterTable? at h
  simp only at h
  split at h
  · exact nomatch h
  · obtain rfl := Option.some.inj h
    iterate 3 refine prefix_of_append ?_
    exact List.prefix_refl _

theorem dropIndexes_starts {table : String} {stored : TableSchema} {dropped : List String}
    {sql : String} (h : sql ∈ dropIndexes naming table stored dropped) :
    "DROP INDEX ".toList <+: sql.toList := by
  obtain ⟨name, _, rfl⟩ := List.mem_map.mp h
  iterate 3 refine prefix_of_append ?_
  exact List.prefix_refl _

theorem renameTable_starts (source target : String) :
    "ALTER TABLE ".toList <+: (renameTable naming source target).toList := by
  unfold renameTable
  iterate 3 refine prefix_of_append ?_
  exact List.prefix_refl _

theorem dropTable_starts (table : String) :
    "DROP TABLE ".toList <+: (dropTable naming table).toList := by
  unfold dropTable
  exact prefix_of_append (List.prefix_refl _)

theorem defines_createTable (table : String) (schema : TableSchema) :
    Defines (createTable naming table schema) :=
  ⟨"CREATE ", by simp, .trans (by decide) (createTable_starts naming table schema)⟩

theorem defines_alterTable? {table : String} {stored : TableSchema} {diff : SchemaDiff}
    {sql : String} (h : alterTable? naming table stored diff = some sql) : Defines sql :=
  ⟨"ALTER ", by simp, .trans (by decide) (alterTable?_starts naming h)⟩

theorem defines_dropIndexes {table : String} {stored : TableSchema} {dropped : List String}
    {sql : String} (h : sql ∈ dropIndexes naming table stored dropped) : Defines sql :=
  ⟨"DROP ", by simp, .trans (by decide) (dropIndexes_starts naming h)⟩

theorem defines_renameTable (source target : String) :
    Defines (renameTable naming source target) :=
  ⟨"ALTER ", by simp, .trans (by decide) (renameTable_starts naming source target)⟩

theorem defines_dropTable (table : String) : Defines (dropTable naming table) :=
  ⟨"DROP ", by simp, .trans (by decide) (dropTable_starts naming table)⟩

theorem defines_createMetadataTable : Defines (createMetadataTable naming) := by
  refine ⟨"CREATE ", by simp, ?_⟩
  unfold createMetadataTable
  iterate 3 refine prefix_of_append ?_
  decide

end Definition

open Definition RecordTable

/-! ## Migrations, one by one -/

theorem moves_define (hfaults : R.FailsOnly faults) {sql : String} (hsql : Defines sql) :
    R.Moves faults before (Migration.define sql) fun after _ => after = before := by
  have hs : ¬ Writes naming { sql } := not_writes_of_defines hsql
  have hexecute : R.MovesForgotten [] faults before (Operation.execute { sql })
      fun after _ => after = before := by
    refine movesForgotten_execute (fun _ hfails => ?_) (fun hrecords _ => ?_) ?_
    · exact faults_of_failed hfaults (fun hsql => hs (Or.inl hsql)) hfails
    · exact (R.other_same hs).trans hrecords
    · rintro _ rfl _ hne
      exact absurd rfl hne
  unfold Migration.define
  exact hexecute.moves.skip fun _ => moves_pure rfl

/-- Whether the statement fails does not matter. -/
theorem moves_tryDefine {sql : String} (hsql : Defines sql) :
    R.Moves faults before (Migration.tryDefine sql) fun after _ => after = before := by
  unfold Migration.tryDefine
  exact (moves_execute_other (not_writes_of_defines hsql)).skip fun _ => moves_pure rfl

theorem moves_finish (event : MigrationEvent) :
    R.Moves faults before (Migration.finish event) fun after _ => after = before := by
  have hforget : ∀ table, R.Moves False before (Operation.ask (.forgetRows table))
      fun after _ => after = before := fun table => moves_ask fun _ => ⟨rfl, rfl⟩
  unfold Migration.finish
  refine (moves_forM fun table _ => hforget table).skip fun _ => moves_ask fun w => ?_
  obtain ⟨hdatabase, hcaches⟩ := World.announce_same w event
  exact ⟨hdatabase, congrArg Caches.schemas hcaches⟩

section Migrations
variable (hfaults : R.FailsOnly faults) {table : String}
include hfaults

theorem moves_createTable {schema : TableSchema} (hvalid : faults ∨ schema.validate = .ok ())
    (hnew : faults ∨ before table = none) :
    R.Moves faults before (Migration.createTable naming table schema) fun after _ =>
      before table = none ∧ after = update before table (some (encode schema)) := by
  unfold Migration.createTable
  refine (moves_ofExcept (hvalid.imp_right fun h => ⟨(), h⟩)).bind fun _ _ => ?_
  refine (moves_define hfaults (defines_createTable naming table schema)).skip fun _ => ?_
  exact (moves_put hfaults hnew).finish fun _ => moves_finish _

theorem moves_applyDiff {stored : TableSchema} {diff : SchemaDiff}
    (hvalid : faults ∨ (stored.merge diff).validate = .ok ()) (hthere : before table ≠ none) :
    R.Moves faults before (Migration.applyDiff naming table stored diff) fun after _ =>
      after = update before table (some (encode (stored.merge diff))) := by
  have hrecord : R.Moves faults before (do
      Records.replace naming table table (stored.merge diff)
      Migration.finish (.altered table diff) : Operation Unit) fun after _ =>
        after = update before table (some (encode (stored.merge diff))) := by
    refine ((moves_replace hfaults hthere).finish fun _ => moves_finish _).mono fun _ _ hafter => ?_
    rw [hafter, Function.update_idem]
  unfold Migration.applyDiff
  refine (moves_ofExcept (hvalid.imp_right fun h => ⟨(), h⟩)).bind fun _ _ => ?_
  refine (moves_forM fun sql hsql => moves_tryDefine (defines_dropIndexes naming hsql)).skip
    fun _ => ?_
  split
  · rename_i sql hsql
    exact (moves_define hfaults (defines_alterTable? naming hsql)).skip fun _ => hrecord
  · exact hrecord

/-- The record of the table holds the desired schema afterwards, and no other is touched. -/
theorem moves_reconcile_written {desired : TableSchema} (hdesired : desired.Recordable)
    (hvalid : faults ∨ desired.validate = .ok ()) (hreadable : faults ∨ Readable (before table)) :
    R.Moves faults before (Migration.reconcile naming table desired) fun after outcome =>
      (∃ record, HoldsWritten record desired ∧ after = update before table record) ∧
        (outcome = .created ↔ before table = none) ∧
        (outcome = .unchanged ↔ Holds (before table) desired) := by
  unfold Migration.reconcile
  refine (moves_ofExcept (hvalid.imp_right fun h => ⟨(), h⟩)).bind fun _ hvalidated => ?_
  refine (moves_find? hfaults hreadable).bind fun found hfound => ?_
  cases found with
  | none =>
    have hnone : before table = none := hfound
    refine (moves_createTable hfaults (Or.inr hvalidated) (Or.inr hnone)).settle
      fun after _ hafter => moves_pure ?_
    refine ⟨⟨_, ?_, hafter.2⟩, ⟨fun _ => hnone, fun _ => rfl⟩, nofun, ?_⟩
    · exact WrittenFrom.holdsWritten rfl hdesired
    · rintro ⟨row, _, hrow, _⟩
      exact nomatch hnone.symm.trans hrow
  | some stored =>
    obtain ⟨row, hrow, hdecoded⟩ := hfound
    have hthere : before table ≠ none := fun h => nomatch h.symm.trans hrow
    have hholds : Holds (before table) desired ↔ stored.sameContent desired = true :=
      holds_iff hrow hdecoded
    simp only
    split
    · rename_i hempty
      have hsame := hholds.mpr (TableSchema.isEmpty_diff_iff.mp hempty)
      refine moves_pure ⟨⟨_, hsame.written, (Function.update_eq_self _ _).symm⟩, ?_, ?_⟩
      · exact ⟨nofun, fun h => absurd h hthere⟩
      · exact ⟨fun _ => hsame, fun _ => rfl⟩
    · rename_i hdiffers
      have hvalidMerged : (stored.merge (stored.diff desired)).validate = .ok () :=
        TableSchema.validate_eq_ok_iff.mpr
          (TableSchema.fault?_merge_diff (TableSchema.validate_eq_ok_iff.mp hvalidated) stored)
      refine (moves_applyDiff hfaults (Or.inr hvalidMerged) hthere).settle
        fun after _ hafter => moves_pure ?_
      have hmerged := holdsWritten_encode
        (TableSchema.distinct_merge_diff (distinct_of_decode hdecoded) hdesired.distinct) hdesired
        (TableSchema.sameContent_merge_diff hdesired.distinct stored)
      refine ⟨⟨_, hmerged, hafter⟩, ⟨nofun, fun h => absurd h hthere⟩, nofun, fun hsame => ?_⟩
      exact absurd (TableSchema.isEmpty_diff_iff.mpr (hholds.mp hsame)) hdiffers

/-- A stable schema is there as it is. -/
theorem moves_reconcile {desired : TableSchema} (hstable : desired.Stable)
    (hvalid : faults ∨ desired.validate = .ok ()) (hreadable : faults ∨ Readable (before table)) :
    R.Moves faults before (Migration.reconcile naming table desired) fun after outcome =>
      (∃ record, Holds record desired ∧ after = update before table record) ∧
        (outcome = .created ↔ before table = none) ∧
        (outcome = .unchanged ↔ Holds (before table) desired) :=
  (moves_reconcile_written hfaults hstable.recordable hvalid hreadable).mono
    fun _ _ ⟨⟨record, hwritten, hafter⟩, houtcomes⟩ =>
      ⟨⟨record, hwritten.holds hstable, hafter⟩, houtcomes⟩

theorem moves_updateTable {diff : SchemaDiff}
    (hthere : faults ∨ ∃ row stored, before table = some row ∧ decode row = .ok stored ∧
      (stored.merge diff).validate = .ok ()) :
    R.Moves faults before (Migration.updateTable naming table diff) fun after _ =>
      ∃ row stored, before table = some row ∧ decode row = .ok stored ∧
        after = update before table (some (encode (stored.merge diff))) := by
  unfold Migration.updateTable
  refine (moves_get hfaults (hthere.imp_right fun ⟨row, stored, hrow, hdecoded, _⟩ =>
    ⟨row, stored, hrow, hdecoded⟩)).bind fun stored hfound => ?_
  obtain ⟨row, hrow, hdecoded⟩ := hfound
  refine (moves_applyDiff hfaults (hthere.imp_right ?_) ?_).mono fun after _ hafter =>
    ⟨row, stored, hrow, hdecoded, hafter⟩
  · rintro ⟨row', stored', hrow', hdecoded', hvalid⟩
    obtain rfl := schema_unique hrow hdecoded hrow' hdecoded'
    exact hvalid
  · exact fun h => nomatch h.symm.trans hrow

theorem moves_renameTable {target : String}
    (hthere : faults ∨ ∃ row stored, before table = some row ∧ decode row = .ok stored) :
    R.Moves faults before (Migration.renameTable naming table target) fun after _ =>
      ∃ row stored, before table = some row ∧ decode row = .ok stored ∧
        after = update (update before table none) target (some (encode stored)) := by
  unfold Migration.renameTable
  refine (moves_get hfaults hthere).bind fun stored hfound => ?_
  obtain ⟨row, hrow, hdecoded⟩ := hfound
  refine (moves_define hfaults (defines_renameTable naming table target)).skip fun _ => ?_
  have hthere : before table ≠ none := fun h => nomatch h.symm.trans hrow
  exact ((moves_replace hfaults hthere).finish fun _ => moves_finish _).mono fun after _ hafter =>
    ⟨row, stored, hrow, hdecoded, hafter⟩

theorem moves_dropTable :
    R.Moves faults before (Migration.dropTable naming table) fun after _ =>
      after = update before table none := by
  unfold Migration.dropTable
  refine (moves_define hfaults (defines_dropTable naming table)).skip fun _ => ?_
  exact (moves_drop hfaults).finish fun _ => moves_finish _

end Migrations

/-! ## Calls -/

inductive MigrationCall where
  | create (table : String) (schema : TableSchema)
  | reconcile (table : String) (desired : TableSchema)
  | update (table : String) (diff : SchemaDiff)
  | rename (source target : String)
  | drop (table : String)

namespace MigrationCall

def tables : MigrationCall → List String
  | .create table _ | .reconcile table _ | .update table _ | .drop table => [table]
  | .rename source target => [source, target]

def operation (naming : TableNaming) : MigrationCall → Operation Unit
  | .create table schema => Migration.createTable naming table schema
  | .reconcile table desired => do
    let _ ← Migration.reconcile naming table desired
  | .update table diff => Migration.updateTable naming table diff
  | .rename source target => Migration.renameTable naming source target
  | .drop table => Migration.dropTable naming table

/-- The schemas of the call are unchanged by being written and read back. -/
def Stable : MigrationCall → Prop
  | .create _ schema | .reconcile _ schema => schema.Stable
  | .update _ diff => diff.added.Stable ∧ diff.changed.Stable
  | .rename .. | .drop _ => True

/-- The change that the call makes to the records. A stored schema that is written again is recorded
in its written form. -/
def Changes : MigrationCall → RecordMap → RecordMap → Prop
  | .create table schema, before, after =>
    before table = none ∧ after = Function.update before table (some (encode schema)) ∧
      decode (encode schema) = .ok schema
  | .reconcile table desired, before, after =>
    ∃ record, Holds record desired ∧ after = Function.update before table record
  | .update table diff, before, after =>
    ∃ row stored, before table = some row ∧ decode row = .ok stored ∧
      after = Function.update before table (some (encode (stored.merge diff))) ∧
      (stored.Stable → decode (encode (stored.merge diff)) = .ok (stored.merge diff))
  | .rename source target, before, after =>
    ∃ row stored, before source = some row ∧ decode row = .ok stored ∧
      after = Function.update (Function.update before source none) target (some (encode stored)) ∧
      (stored.Stable → decode (encode stored) = .ok stored)
  | .drop table, before, after => after = Function.update before table none

theorem Changes.of_other {call : MigrationCall} {after : RecordMap} (h : call.Changes before after)
    {table : String} (htable : table ∉ call.tables) : after table = before table := by
  have hone : ∀ {key : String}, table ∉ [key] → table ≠ key :=
    fun hkey htable => hkey (htable ▸ List.mem_cons_self)
  cases call with
  | create key schema =>
    obtain ⟨_, rfl, _⟩ := h
    exact Function.update_of_ne (hone htable) _ _
  | reconcile key desired =>
    obtain ⟨_, _, rfl⟩ := h
    exact Function.update_of_ne (hone htable) _ _
  | update key diff =>
    obtain ⟨_, _, _, _, rfl, _⟩ := h
    exact Function.update_of_ne (hone htable) _ _
  | rename source target =>
    obtain ⟨_, _, _, _, rfl, _⟩ := h
    simp only [tables, List.mem_cons, List.not_mem_nil, or_false, not_or] at htable
    rw [Function.update_of_ne htable.2, Function.update_of_ne htable.1]
  | drop key =>
    obtain rfl := h
    exact Function.update_of_ne (hone htable) _ _

/-- Whatever fails. -/
theorem moves_operation (R : RecordTable naming db) {call : MigrationCall} (h : call.Stable)
    (before : RecordMap) :
    R.Moves True before (call.operation naming) fun after _ => call.Changes before after := by
  have hfaults := R.failsOnly_true
  cases call with
  | create table schema =>
    refine (moves_createTable hfaults (Or.inl trivial) (Or.inl trivial)).mono fun after _ hafter => ?_
    exact ⟨hafter.1, hafter.2, decode_encode_of_stable h⟩
  | reconcile table desired =>
    have hreconcile : R.Moves True before (Migration.reconcile naming table desired) _ :=
      moves_reconcile hfaults h (Or.inl trivial) (Or.inl trivial)
    exact hreconcile.settle fun after _ hafter => moves_pure hafter.1
  | update table diff =>
    refine (moves_updateTable hfaults (Or.inl trivial)).mono ?_
    rintro after _ ⟨row, stored, hrow, hdecoded, hafter⟩
    exact ⟨row, stored, hrow, hdecoded, hafter, fun hstored =>
      decode_encode_of_stable (hstored.merge h.1 h.2)⟩
  | rename source target =>
    refine (moves_renameTable hfaults (Or.inl trivial)).mono ?_
    rintro after _ ⟨row, stored, hrow, hdecoded, hafter⟩
    exact ⟨row, stored, hrow, hdecoded, hafter, decode_encode_of_stable⟩
  | drop table => exact moves_dropTable hfaults

/-- The world after a call, whether it failed or not. -/
def after (db : Database σ) (naming : TableNaming) (w : World σ) (call : MigrationCall) : World σ :=
  ((call.operation naming).exec db w).2

end MigrationCall

/-! ## Runs of calls -/

theorem coherent_after_calls (R : RecordTable naming db) {calls : List MigrationCall}
    (h : ∀ call ∈ calls, call.Stable) {w : World σ} (hw : R.Coherent w) :
    R.Coherent (calls.foldl (MigrationCall.after db naming) w) ∧
      ∀ table, (∀ call ∈ calls, table ∉ call.tables) →
        R.recorded (calls.foldl (MigrationCall.after db naming) w) table = R.recorded w table := by
  induction calls generalizing w with
  | nil => exact ⟨hw, fun _ _ => rfl⟩
  | cons call calls ih =>
    obtain ⟨hcall, hrest⟩ := List.forall_mem_cons.mp h
    obtain ⟨hcoherent, hresult⟩ := MigrationCall.moves_operation R hcall _ w hw rfl
    obtain ⟨hcoherent', hsame⟩ := ih hrest hcoherent
    refine ⟨hcoherent', fun table htable => (hsame table fun c hc =>
      htable c (List.mem_cons_of_mem _ hc)).trans ?_⟩
    have hother := htable call List.mem_cons_self
    show R.recorded ((call.operation naming).exec db w).2 table = _
    rcases hexec : (call.operation naming).exec db w with ⟨e | _, w'⟩ <;> rw [hexec] at hresult
    · exact congrFun hresult.2 table
    · exact MigrationCall.Changes.of_other hresult hother

/-- After any number of migrations, whatever became of them, the next one leaves all records as they
are if it fails, and changes them as it says if it succeeds. Tables that no call names keep their
records throughout. -/
theorem migrations_all_or_nothing {σ : Type} {naming : TableNaming} {db : Database σ}
    (R : RecordTable naming db) (w₀ : World σ) (h₀ : R.Coherent w₀) (earlier : List MigrationCall)
    (hearlier : ∀ call ∈ earlier, call.Stable) (call : MigrationCall) (hcall : call.Stable)
    (w w' : World σ) (result : Except StoreError Unit)
    (hw : earlier.foldl (MigrationCall.after db naming) w₀ = w)
    (hexec : (call.operation naming).exec db w = (result, w')) :
    R.Coherent w' ∧
      (∀ e, result = .error e → R.recorded w' = R.recorded w) ∧
      (result = .ok () → call.Changes (R.recorded w) (R.recorded w')) ∧
      ∀ table, table ∉ call.tables → R.recorded w' table = R.recorded w table ∧
        ((∀ c ∈ earlier, table ∉ c.tables) → R.recorded w' table = R.recorded w₀ table) := by
  obtain ⟨hcoherent, hkept⟩ := coherent_after_calls R hearlier h₀
  rw [hw] at hcoherent hkept
  obtain ⟨hcoherent', hresult⟩ := MigrationCall.moves_operation R hcall _ w hcoherent rfl
  rw [hexec] at hcoherent' hresult
  have hsame : ∀ table, table ∉ call.tables → R.recorded w' table = R.recorded w table := by
    intro table htable
    cases result with
    | error e => exact congrFun hresult.2 table
    | ok _ => exact MigrationCall.Changes.of_other hresult htable
  refine ⟨hcoherent', ?_, ?_, fun table htable => ⟨hsame table htable, fun hothers => ?_⟩⟩
  · rintro e rfl
    exact hresult.2
  · rintro rfl
    exact hresult
  · exact (hsame table htable).trans (hkept table hothers)

/-! ## Two runs -/

section Runs

/-- Memory is empty, and the table `t` has that record. -/
def oneRecord (record : Row) : World Backend where
  database := { naming := {}, records := .ofList [("t", record)] }
  handlers := { hook := migrationHook }

theorem coherent_oneRecord (record : Row) :
    (scriptedRecords {} false).Coherent (oneRecord record) :=
  fun _ _ hcached => nomatch hcached

theorem recorded_oneRecord (record : Row) :
    (scriptedRecords {} false).recorded (oneRecord record) "t" = some record := rfl

theorem recorded_oneRecord_of_ne {table : String} (h : table ≠ "t") (record : Row) :
    (scriptedRecords {} false).recorded (oneRecord record) table = none := by
  show List.lookup table [("t", record)] = none
  rw [List.lookup_cons, beq_false_of_ne h]
  rfl

/-- The table `t` is to be created once more, which fails, and then it is renamed. -/
theorem migrations_all_or_nothing_renamed :
    ∃ created renamed e,
      ((MigrationCall.create "t" numbersTable).operation {}).exec (scriptedUnder {} false)
        (oneRecord (encode numbersTable)) = (.error e, created) ∧
      ((MigrationCall.rename "t" "u").operation {}).exec (scriptedUnder {} false) created =
        (.ok (), renamed) ∧
      (scriptedRecords {} false).recorded renamed "t" = none ∧
      (scriptedRecords {} false).recorded renamed "u" = some (encode numbersTable) := by
  have hthere := recorded_oneRecord (encode numbersTable)
  have hcold := coherent_oneRecord (encode numbersTable)
  rcases hcreate : ((MigrationCall.create "t" numbersTable).operation {}).exec
    (scriptedUnder {} false) (oneRecord (encode numbersTable)) with ⟨result, created⟩
  obtain ⟨hcoherent, hfails, hcreates, _⟩ := migrations_all_or_nothing (scriptedRecords {} false)
    _ hcold [] nofun (.create "t" numbersTable) stable_numbersTable _ created result rfl hcreate
  obtain ⟨e, rfl⟩ : ∃ e, result = .error e := by
    cases result with
    | error e => exact ⟨e, rfl⟩
    | ok _ => exact nomatch (hcreates rfl).1.symm.trans hthere
  have hfound : (scriptedRecords {} false).recorded created "t" = some (encode numbersTable) :=
    (congrFun (hfails e rfl) "t").trans hthere
  have hrename : (scriptedRecords {} false).Outcome False _ _
      (((MigrationCall.rename "t" "u").operation {}).exec (scriptedUnder {} false) created) :=
    moves_renameTable (scripted_failsOnly {})
      (Or.inr ⟨_, _, hfound, decode_encode_of_stable stable_numbersTable⟩) created hcoherent rfl
  rcases hrenamed : ((MigrationCall.rename "t" "u").operation {}).exec
    (scriptedUnder {} false) created with ⟨result', renamed⟩
  obtain ⟨_, _, hrenames, _⟩ := migrations_all_or_nothing (scriptedRecords {} false) _ hcold
    [.create "t" numbersTable] (List.forall_mem_singleton.mpr stable_numbersTable)
    (.rename "t" "u") trivial created renamed result' (congrArg Prod.snd hcreate) hrenamed
  rw [hrenamed] at hrename
  obtain rfl : result' = .ok () := by
    cases result' with
    | ok _ => rfl
    | error _ => exact hrename.2.1.elim
  obtain ⟨row, stored, hrow, hdecoded, hchanged, _⟩ := hrenames rfl
  obtain rfl : row = encode numbersTable := Option.some.inj (hrow.symm.trans hfound)
  obtain rfl : numbersTable = stored :=
    Except.ok.inj ((decode_encode_of_stable stable_numbersTable).symm.trans hdecoded)
  refine ⟨created, renamed, e, rfl, hrenamed, ?_, ?_⟩
  · rw [hchanged, Function.update_of_ne (by decide), Function.update_self]
  · rw [hchanged, Function.update_self]

/-! ## A default that reads back as its neighbour -/

def fraction : Binary64 := ⟨false, 4606446617447707817, by decide⟩

/-- Its decimals are read as `fraction`. -/
def fractionText : String := "\x7b\"x\":\x7b\"type\":\"string\",\"default\":0.9183096397115566\x7d\x7d"

def fractionTable : TableSchema := .ofList [("x", { default := some (.num (.float fraction)) })]

def addNumbers : SchemaDiff := ⟨numbersTable, ∅, []⟩

theorem decode_fractionText : decode (rowOf fractionText) = .ok fractionTable := by
  have hchars : fractionText.toList =
      ['{', '"', 'x', '"', ':', '{', '"', 't', 'y', 'p', 'e', '"', ':', '"', 's', 't',
      'r', 'i', 'n', 'g', '"', ',', '"', 'd', 'e', 'f', 'a', 'u', 'l', 't', '"', ':', '0',
      '.', '9', '1', '8', '3', '0', '9', '6', '3', '9', '7', '1', '1', '5', '5', '6', '6',
      '}', '}'] := by
    decide
  have hparsed : Document.parse? fractionText = some (.obj [(some "x",
      .obj [(some "type", .str "string"), (some "default", .num (.float fraction))])]) := by
    unfold Document.parse?
    rw [hchars]
    rfl
  have hget : (rowOf fractionText).get? "columns" = some (.str fractionText) := rfl
  have hread : TableSchema.parse? fractionText = some fractionTable := by
    unfold TableSchema.parse?
    rw [hparsed]
    rfl
  unfold decode
  simp only [hget, hread]
  rfl

/-- Once a column is added to the table that has this text as its record, the default in the record
is another one than the default that was there. -/
theorem updated_default_differs :
    ∃ w,
      (scriptedRecords {} false).Coherent (oneRecord (rowOf fractionText)) ∧
      decode (rowOf fractionText) = .ok fractionTable ∧
      (MigrationCall.update "t" addNumbers).Stable ∧
      ((MigrationCall.update "t" addNumbers).operation {}).exec (scriptedUnder {} false)
        (oneRecord (rowOf fractionText)) = (.ok (), w) ∧
      ¬ ∃ record, (scriptedRecords {} false).recorded w "t" = some record ∧
        decode record = .ok (fractionTable.merge addNumbers) := by
  have hthere := recorded_oneRecord (rowOf fractionText)
  have hcold := coherent_oneRecord (rowOf fractionText)
  have hvalid : (fractionTable.merge addNumbers).validate = .ok () := rfl
  have hadds : (MigrationCall.update "t" addNumbers).Stable :=
    ⟨stable_numbersTable, TableSchema.stable_of_noDefaults fun _ _ h => nomatch h⟩
  have hupdate : (scriptedRecords {} false).Outcome False _ _
      (((MigrationCall.update "t" addNumbers).operation {}).exec (scriptedUnder {} false)
        (oneRecord (rowOf fractionText))) :=
    moves_updateTable (scripted_failsOnly {})
      (Or.inr ⟨_, _, hthere, decode_fractionText, hvalid⟩) _ hcold rfl
  rcases hexec : ((MigrationCall.update "t" addNumbers).operation {}).exec
    (scriptedUnder {} false) (oneRecord (rowOf fractionText)) with ⟨_ | _, w⟩ <;>
    rw [hexec] at hupdate
  · exact hupdate.2.1.elim
  obtain ⟨row, stored, hrow, hdecoded, hchanged⟩ := hupdate.2
  obtain rfl : row = rowOf fractionText := Option.some.inj (hrow.symm.trans hthere)
  obtain rfl : fractionTable = stored :=
    Except.ok.inj (decode_fractionText.symm.trans hdecoded)
  refine ⟨w, hcold, decode_fractionText, hadds, rfl, ?_⟩
  rintro ⟨record, hrecord, hdecoded'⟩
  rw [hchanged, Function.update_self] at hrecord
  obtain rfl := Option.some.inj hrecord
  have hstable : (fractionTable.merge addNumbers).Stable := parse?_of_decode_encode hdecoded'
  have hcolumn : (fractionTable.merge addNumbers).get? "x" =
      some { default := some (.num (.float fraction)) } := rfl
  have hread := TableSchema.stable_iff.mp hstable "x" _ hcolumn
  have hneighbour : (Number.float fraction).readBack? =
      some (.float ⟨false, 4606446617447707816, by decide⟩) := by
    decide +kernel
  rw [Column.readBack?_number rfl hneighbour] at hread
  have hsame := congrArg Column.default (Option.some.inj hread)
  simp [fraction] at hsame

end Runs

end ContentTables
