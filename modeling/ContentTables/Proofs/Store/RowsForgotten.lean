import ContentTables.Proofs.Store.Migrating
import ContentTables.Proofs.Store.Paths
import ContentTables.Store.Rows

/-!
# Rows in memory after a migration

A migration forgets the rows of its tables in its last step, which it does not reach when its
record could not be written. So a table may have been changed or dropped while rows that were read
before are still in memory.

* `TableDefined`, `RecordFailed` : what a run did to the table, and to its record;
* `rowsAfter`, `Program.rows_run` : the rows in memory depend on what was asked for only;
* `Settles`, `Ends` : how a migration may end once its table is defined, and how it may end at all;
* `Settles.prepend`, `Ends.prepend`, `ends_define_bind`, `ends_createTable`, `ends_applyDiff` and
  their like : each migration ends so;
* `rows_forgotten_iff` : after a migration that has defined its table the rows are forgotten, unless
  the record could not be written and there were some.
-/

namespace ContentTables

open Records (Writes Defines)

variable {σ α β : Type} {naming : TableNaming}

/-! ## Runs -/

/-- The statement creates, changes, renames or drops a table. -/
def DefinesTable (sql : String) : Prop :=
  ∃ word ∈ ["CREATE TABLE ", "ALTER TABLE ", "DROP TABLE "], word.toList <+: sql.toList

/-- A statement that defines a table has succeeded. -/
def TableDefined (steps : List Answered) : Prop :=
  ∃ s written, DefinesTable s.sql ∧ ⟨.execute s, .ok written⟩ ∈ steps

/-- A statement that writes a record has failed. -/
def RecordFailed (naming : TableNaming) (steps : List Answered) : Prop :=
  ∃ s fault, Writes naming s ∧ ⟨.execute s, .error fault⟩ ∈ steps

theorem recordFailed_append {first rest : List Answered} :
    RecordFailed naming (first ++ rest) ↔ RecordFailed naming first ∨ RecordFailed naming rest := by
  constructor
  · rintro ⟨s, fault, hs, hmem⟩
    exact (List.mem_append.mp hmem).imp (⟨s, fault, hs, ·⟩) (⟨s, fault, hs, ·⟩)
  · rintro (⟨s, fault, hs, hmem⟩ | ⟨s, fault, hs, hmem⟩)
    · exact ⟨s, fault, hs, List.mem_append_left rest hmem⟩
    · exact ⟨s, fault, hs, List.mem_append_right first hmem⟩

/-! ## Rows in memory -/

namespace Effect

/-- It is not about rows in memory. -/
def LeavesRows : Effect → Prop
  | .keepRows .. | .forgetRows _ => False
  | _ => True

/-- It brings no rows into memory. -/
def KeepsNoRows : Effect → Prop
  | .keepRows .. => False
  | _ => True

/-- Besides, it does not define a table and does not write a record. -/
def Aside (naming : TableNaming) (e : Effect) : Prop :=
  e.LeavesRows ∧ ∀ s, e = .execute s → ¬ DefinesTable s.sql ∧ ¬ Writes naming s

theorem LeavesRows.keepsNoRows {e : Effect} (h : e.LeavesRows) : e.KeepsNoRows := by
  cases e <;> trivial

theorem OnSchemas.aside {e : Effect} (h : e.OnSchemas) : e.Aside naming := by
  cases e <;> first | exact h.elim | exact ⟨trivial, nofun⟩

end Effect

def rowsAfter (rows : GroupedCache QueryResult) : Answered → GroupedCache QueryResult
  | ⟨.keepRows table key result generation, _⟩ => (rows.keep table key result generation).2
  | ⟨.forgetRows table, _⟩ => rows.clearGroup table
  | _ => rows

theorem rowsAfter_of_leavesRows {step : Answered} (h : step.1.LeavesRows)
    (rows : GroupedCache QueryResult) : rowsAfter rows step = rows := by
  obtain ⟨e, answer⟩ := step
  cases e <;> first | rfl | exact h.elim

theorem World.rows_answer (db : Database σ) (w : World σ) (e : Effect) :
    (w.answer db e).2.caches.rows = rowsAfter w.caches.rows ⟨e, (w.answer db e).1⟩ := by
  cases e with
  | announce event => exact congrArg Caches.rows (World.announce_same w event).2
  | _ => rfl

theorem Program.rows_run (db : Database σ) (p : Program α) (w : World σ) :
    (p.run db w).2.caches.rows = (p.transcript db w).foldl rowsAfter w.caches.rows := by
  induction p generalizing w with
  | done a => rfl
  | perform e next ih =>
    have hnext := ih (w.answer db e).1 (w.answer db e).2
    rw [World.rows_answer] at hnext
    exact hnext

theorem foldl_rowsAfter_same {steps : List Answered} (h : ∀ step ∈ steps, step.1.LeavesRows)
    (rows : GroupedCache QueryResult) : steps.foldl rowsAfter rows = rows := by
  induction steps with
  | nil => rfl
  | cons step steps ih =>
    obtain ⟨hstep, hsteps⟩ := List.forall_mem_cons.mp h
    rw [List.foldl_cons, rowsAfter_of_leavesRows hstep, ih hsteps]

/-- As long as nothing is kept, what is not there does not appear. -/
theorem get?_rowsAfter {step : Answered} (h : step.1.KeepsNoRows) {rows : GroupedCache QueryResult}
    {table key : String} (hrows : rows.get? table key = none) :
    (rowsAfter rows step).get? table key = none := by
  obtain ⟨e, answer⟩ := step
  cases e with
  | keepRows => exact h.elim
  | forgetRows other =>
    show (rows.clearGroup other).get? table key = none
    rw [GroupedCache.get?_clearGroup]
    split
    · rfl
    · exact hrows
  | _ => exact hrows

theorem get?_foldl_rowsAfter {steps : List Answered} {table key : String}
    (h : ∀ step ∈ steps, step.1.KeepsNoRows) {rows : GroupedCache QueryResult}
    (hrows : ⟨.forgetRows table, ()⟩ ∈ steps ∨ rows.get? table key = none) :
    (steps.foldl rowsAfter rows).get? table key = none := by
  induction steps generalizing rows with
  | nil => exact hrows.resolve_left List.not_mem_nil
  | cons step steps ih =>
    obtain ⟨hstep, hsteps⟩ := List.forall_mem_cons.mp h
    refine ih hsteps ?_
    rcases hrows with hmem | hrows
    · rcases List.mem_cons.mp hmem with rfl | hmem
      · refine Or.inr ?_
        show (rows.clearGroup table).get? table key = none
        rw [GroupedCache.get?_clearGroup, if_pos rfl]
      · exact Or.inl hmem
    · exact Or.inr (get?_rowsAfter hstep hrows)

/-! ## How a migration ends -/

/-- The record could not be written, or everything was done and the rows are forgotten. -/
inductive Settles (naming : TableNaming) (tables : List String) :
    List Answered → Except StoreError α → Prop
  | unrecorded {steps e} (hrows : ∀ step ∈ steps, step.1.LeavesRows)
      (hfailed : RecordFailed naming steps) : Settles naming tables steps (.error e)
  | finished {steps a} (hrows : ∀ step ∈ steps, step.1.KeepsNoRows)
      (hrecorded : ¬ RecordFailed naming steps)
      (hforgotten : ∀ table ∈ tables, ⟨.forgetRows table, ()⟩ ∈ steps) :
      Settles naming tables steps (.ok a)

/-- Unless it settles, no table was defined and the rows in memory are what they were. -/
def Ends (naming : TableNaming) (tables : List String) (steps : List Answered)
    (result : Except StoreError α) : Prop :=
  (∀ step ∈ steps, step.1.LeavesRows) ∧ ¬ TableDefined steps ∨
    Settles naming tables steps result

section Endings
variable {tables : List String} {first rest : List Answered} {result : Except StoreError α}

theorem Settles.prepend (hfirst : ∀ step ∈ first, step.1.LeavesRows)
    (hrecorded : ¬ RecordFailed naming first) (h : Settles naming tables rest result) :
    Settles naming tables (first ++ rest) result := by
  cases h with
  | unrecorded hrows hfailed =>
    exact .unrecorded (List.forall_mem_append.mpr ⟨hfirst, hrows⟩)
      (recordFailed_append.mpr (Or.inr hfailed))
  | finished hrows hrest hforgotten =>
    refine .finished (List.forall_mem_append.mpr ⟨fun step hstep =>
      (hfirst step hstep).keepsNoRows, hrows⟩) ?_ fun table htable =>
      List.mem_append_right first (hforgotten table htable)
    rw [recordFailed_append]
    exact not_or_intro hrecorded hrest

theorem Settles.map {b : β} (h : Settles naming tables rest result) :
    Settles naming tables rest (result.map fun _ => b) := by
  cases h with
  | unrecorded hrows hfailed => exact .unrecorded hrows hfailed
  | finished hrows hrecorded hforgotten => exact .finished hrows hrecorded hforgotten

theorem not_recordFailed_of_aside (h : ∀ step ∈ first, step.1.Aside naming) :
    ¬ RecordFailed naming first := by
  rintro ⟨s, fault, hs, hmem⟩
  exact ((h _ hmem).2 s rfl).2 hs

theorem not_tableDefined_of_aside (h : ∀ step ∈ first, step.1.Aside naming) :
    ¬ TableDefined first := by
  rintro ⟨s, written, hs, hmem⟩
  exact ((h _ hmem).2 s rfl).1 hs

theorem Ends.prepend (hfirst : ∀ step ∈ first, step.1.Aside naming)
    (h : Ends naming tables rest result) : Ends naming tables (first ++ rest) result := by
  have hleaves : ∀ step ∈ first, step.1.LeavesRows := fun step hstep => (hfirst step hstep).1
  rcases h with ⟨hrows, hundefined⟩ | hsettles
  · refine Or.inl ⟨List.forall_mem_append.mpr ⟨hleaves, hrows⟩, ?_⟩
    rintro ⟨s, written, hs, hmem⟩
    rcases List.mem_append.mp hmem with hmem | hmem
    · exact not_tableDefined_of_aside hfirst ⟨s, written, hs, hmem⟩
    · exact hundefined ⟨s, written, hs, hmem⟩
  · exact Or.inr (hsettles.prepend hleaves (not_recordFailed_of_aside hfirst))

end Endings

namespace Operation

variable {tables : List String} {x : Operation α} {f : α → Operation β}

def Settles (naming : TableNaming) (tables : List String) (x : Operation α) : Prop :=
  ∀ steps result, x.Path steps result → ContentTables.Settles naming tables steps result

def Ends (naming : TableNaming) (tables : List String) (x : Operation α) : Prop :=
  ∀ steps result, x.Path steps result → ContentTables.Ends naming tables steps result

theorem Settles.ends (h : x.Settles naming tables) : x.Ends naming tables :=
  fun _ _ hpath => Or.inr (h _ _ hpath)

theorem ends_of_aside (h : x.AsksOnly (Effect.Aside naming)) : x.Ends naming tables :=
  fun _ _ hpath => Or.inl ⟨fun step hstep => (h _ _ hpath step hstep).1,
    not_tableDefined_of_aside (h _ _ hpath)⟩

theorem Ends.behind (hx : x.AsksOnly (Effect.Aside naming)) (hf : ∀ a, (f a).Ends naming tables) :
    (x >>= f).Ends naming tables := by
  intro steps result h
  rcases path_bind h with ⟨e, hpath, rfl⟩ | ⟨a, first, rest, hfirst, hrest, rfl⟩
  · exact Or.inl ⟨fun step hstep => (hx _ _ hpath step hstep).1,
      not_tableDefined_of_aside (hx _ _ hpath)⟩
  · exact Ends.prepend (hx _ _ hfirst) (hf a _ _ hrest)

/-- What is made of the result does not matter. -/
theorem Ends.andThen {b : β} (hx : x.Ends naming tables) :
    (x >>= fun _ => pure b : Operation β).Ends naming tables := by
  intro steps result h
  have hmapped : ∃ given : Except StoreError α, x.Path steps given ∧
      result = given.map fun _ => b := by
    rcases path_bind h with ⟨e, hpath, rfl⟩ | ⟨a, first, rest, hfirst, hrest, rfl⟩
    · exact ⟨.error e, hpath, rfl⟩
    · obtain ⟨rfl, rfl⟩ := path_pure hrest
      exact ⟨.ok a, (List.append_nil first).symm ▸ hfirst, rfl⟩
  obtain ⟨given, hpath, rfl⟩ := hmapped
  exact (hx _ _ hpath).imp_right ContentTables.Settles.map

variable (naming) in
theorem asksOnly_forget (table : String) :
    (Records.forget table).AsksOnly (Effect.Aside naming) :=
  asksOnly_ask ⟨trivial, nofun⟩

/-! ## Writing the record, and the end -/

/-- The record is written and then the rest is done, or it is not written and nothing is done. -/
theorem settles_execute_bind {s : Statement} (hs : Writes naming s) {f : Written → Operation β}
    (hf : ∀ written, (f written).Settles naming tables) :
    (execute s >>= f).Settles naming tables := by
  intro steps result h
  rcases path_bind h with ⟨e, hpath, rfl⟩ | ⟨written, first, rest, hfirst, hrest, rfl⟩
  · obtain ⟨answer, rfl, hanswer⟩ := path_execute hpath
    refine .unrecorded (List.forall_mem_singleton.mpr trivial) ?_
    cases answer with
    | ok written => exact nomatch hanswer
    | error fault => exact ⟨s, fault, hs, List.mem_singleton_self _⟩
  · obtain ⟨answer, rfl, hanswer⟩ := path_execute hfirst
    refine (hf written _ _ hrest).prepend (List.forall_mem_singleton.mpr trivial) ?_
    rintro ⟨t, fault, _, hmem⟩
    cases List.mem_singleton.mp hmem
    exact nomatch hanswer

/-- Forgetting a schema cannot fail. -/
theorem settles_forget_bind {table : String} {f : Unit → Operation β}
    (hf : ∀ a, (f a).Settles naming tables) :
    (Records.forget table >>= f).Settles naming tables := by
  intro steps result h
  rcases path_bind h with ⟨e, hpath, rfl⟩ | ⟨a, first, rest, hfirst, hrest, rfl⟩
  · obtain ⟨_, _, hnever⟩ := path_ask hpath
    exact nomatch hnever
  · have haside := asksOnly_forget naming table _ _ hfirst
    exact (hf a _ _ hrest).prepend (fun step hstep => (haside step hstep).1)
      (not_recordFailed_of_aside haside)

theorem path_forgetRows {ts : List String} {steps : List Answered} {result : Except StoreError Unit}
    (h : (ts.forM fun table => ask (.forgetRows table)).Path steps result) :
    steps = ts.map (fun table => ⟨.forgetRows table, ()⟩) ∧ result = .ok () := by
  induction ts generalizing steps with
  | nil => exact path_pure h
  | cons t ts ih =>
    rcases path_bind h with ⟨e, hpath, _⟩ | ⟨a, first, rest, hfirst, hrest, rfl⟩
    · obtain ⟨_, _, hnever⟩ := path_ask hpath
      exact nomatch hnever
    · obtain ⟨answer, rfl, _⟩ := path_ask hfirst
      obtain ⟨rfl, hresult⟩ := ih hrest
      exact ⟨rfl, hresult⟩

theorem settles_finish (event : MigrationEvent) :
    (Migration.finish event).Settles naming event.tables := by
  intro steps result h
  unfold Migration.finish at h
  rcases path_bind h with ⟨e, hpath, _⟩ | ⟨a, first, rest, hfirst, hrest, rfl⟩
  · exact nomatch (path_forgetRows hpath).2
  · obtain ⟨rfl, _⟩ := path_forgetRows hfirst
    obtain ⟨answer, rfl, rfl⟩ := path_ask hrest
    refine .finished ?_ ?_ fun table htable =>
      List.mem_append_left _ (List.mem_map.mpr ⟨table, htable, rfl⟩)
    · refine List.forall_mem_append.mpr ⟨fun step hstep => ?_, List.forall_mem_singleton.mpr trivial⟩
      obtain ⟨table, _, rfl⟩ := List.mem_map.mp hstep
      exact trivial
    · rintro ⟨s, fault, _, hmem⟩
      rcases List.mem_append.mp hmem with hmem | hmem
      · obtain ⟨table, _, hstep⟩ := List.mem_map.mp hmem
        exact nomatch congrArg Sigma.fst hstep
      · exact nomatch congrArg Sigma.fst (List.mem_singleton.mp hmem)

section Records
variable {table key : String} {schema : TableSchema} {f : Unit → Operation β}
  (hf : ∀ a, (f a).Settles naming tables)
include hf

theorem settles_put_bind : (Records.put naming table schema >>= f).Settles naming tables := by
  unfold Records.put
  simp only [bind_assoc]
  refine settles_forget_bind fun _ => ?_
  refine settles_execute_bind (Records.writes_insertRecord ..) fun _ => ?_
  exact settles_forget_bind hf

theorem settles_replace_bind :
    (Records.replace naming key table schema >>= f).Settles naming tables := by
  unfold Records.replace
  simp only [bind_assoc]
  refine settles_forget_bind fun _ => settles_forget_bind fun _ => ?_
  refine settles_execute_bind (Records.writes_updateRecord ..) fun _ => ?_
  exact settles_forget_bind fun _ => settles_forget_bind hf

theorem settles_drop_bind : (Records.drop naming table >>= f).Settles naming tables := by
  unfold Records.drop
  simp only [bind_assoc]
  refine settles_forget_bind fun _ => ?_
  refine settles_execute_bind (Records.writes_deleteRecord ..) fun _ => ?_
  exact settles_forget_bind hf

end Records

/-! ## The migrations -/

/-- The table is defined and then the rest is done, or neither. -/
theorem ends_define_bind {sql : String} (hsql : Defines sql) {f : Unit → Operation β}
    (hf : ∀ a, (f a).Settles naming tables) : (Migration.define sql >>= f).Ends naming tables := by
  have hother : ¬ Writes naming { sql } := Records.not_writes_of_defines hsql
  unfold Migration.define
  rw [bind_assoc]
  intro steps result h
  rcases path_bind h with ⟨e, hpath, rfl⟩ | ⟨written, first, rest, hfirst, hrest, rfl⟩
  · obtain ⟨answer, rfl, hanswer⟩ := path_execute hpath
    refine Or.inl ⟨List.forall_mem_singleton.mpr trivial, ?_⟩
    rintro ⟨s, written, _, hmem⟩
    cases List.mem_singleton.mp hmem
    exact nomatch hanswer
  · obtain ⟨answer, rfl, _⟩ := path_execute hfirst
    rw [pure_bind] at hrest
    refine Or.inr ((hf () _ _ hrest).prepend (List.forall_mem_singleton.mpr trivial) ?_)
    rintro ⟨s, fault, hs, hmem⟩
    obtain rfl : s = { sql } := by
      injection congrArg Sigma.fst (List.mem_singleton.mp hmem)
    exact hother hs

theorem asksOnly_dropIndexes {table : String} {stored : TableSchema} {dropped : List String} :
    ((Definition.dropIndexes naming table stored dropped).forM Migration.tryDefine).AsksOnly
      (Effect.Aside naming) := by
  refine asksOnly_forM fun sql hsql => ?_
  have hdefines := Definition.defines_dropIndexes naming hsql
  refine AsksOnly.bind (asksOnly_ask ⟨trivial, ?_⟩) fun _ => asksOnly_pure _
  rintro s ⟨⟩
  refine ⟨?_, Records.not_writes_of_defines hdefines⟩
  rintro ⟨word, hword, hstart⟩
  have hapart : ¬ word.toList <+: "DROP INDEX ".toList ∧ ¬ "DROP INDEX ".toList <+: word.toList := by
    simp only [List.mem_cons, List.not_mem_nil, or_false] at hword
    rcases hword with rfl | rfl | rfl <;> decide
  exact Records.ne_of_starts hstart (Definition.dropIndexes_starts naming hsql) hapart rfl

theorem ends_createTable (table : String) (schema : TableSchema) :
    (Migration.createTable naming table schema).Ends naming [table] := by
  unfold Migration.createTable
  refine Ends.behind (asksOnly_ofExcept _) fun _ => ?_
  refine ends_define_bind (Definition.defines_createTable naming table schema) fun _ => ?_
  exact settles_put_bind fun _ => settles_finish (.created table)

theorem ends_applyDiff (table : String) (stored : TableSchema) (diff : SchemaDiff) :
    (Migration.applyDiff naming table stored diff).Ends naming [table] := by
  have hrecord : (do
      Records.replace naming table table (stored.merge diff)
      Migration.finish (.altered table diff) : Operation Unit).Settles naming [table] :=
    settles_replace_bind fun _ => settles_finish (.altered table diff)
  unfold Migration.applyDiff
  refine Ends.behind (asksOnly_ofExcept _) fun _ => ?_
  refine Ends.behind asksOnly_dropIndexes fun _ => ?_
  split
  · rename_i sql hsql
    exact ends_define_bind (Definition.defines_alterTable? naming hsql) fun _ => hrecord
  · exact hrecord.ends

theorem ends_reconcile (table : String) (desired : TableSchema) :
    (Migration.reconcile naming table desired).Ends naming [table] := by
  unfold Migration.reconcile
  refine Ends.behind (asksOnly_ofExcept _) fun _ => ?_
  refine Ends.behind ((asksOnly_find? naming table).mono fun _ h => h.aside) fun found => ?_
  cases found with
  | none => exact (ends_createTable table desired).andThen
  | some stored =>
    simp only
    split
    · exact ends_of_aside (asksOnly_pure _)
    · exact (ends_applyDiff table stored _).andThen

theorem ends_updateTable (table : String) (diff : SchemaDiff) :
    (Migration.updateTable naming table diff).Ends naming [table] := by
  unfold Migration.updateTable
  refine Ends.behind ((asksOnly_get naming table).mono fun _ h => h.aside) fun stored => ?_
  exact ends_applyDiff table stored diff

theorem ends_renameTable (source target : String) :
    (Migration.renameTable naming source target).Ends naming [source, target] := by
  unfold Migration.renameTable
  refine Ends.behind ((asksOnly_get naming source).mono fun _ h => h.aside) fun schema => ?_
  refine ends_define_bind (Definition.defines_renameTable naming source target) fun _ => ?_
  exact settles_replace_bind fun _ => settles_finish (.renamed source target)

theorem ends_dropTable (table : String) :
    (Migration.dropTable naming table).Ends naming [table] := by
  unfold Migration.dropTable
  refine ends_define_bind (Definition.defines_dropTable naming table) fun _ => ?_
  exact settles_drop_bind fun _ => settles_finish (.dropped table)

end Operation

theorem MigrationCall.ends (call : MigrationCall) :
    (call.operation naming).Ends naming call.tables := by
  cases call with
  | create table schema => exact Operation.ends_createTable table schema
  | reconcile table desired => exact (Operation.ends_reconcile table desired).andThen
  | update table diff => exact Operation.ends_updateTable table diff
  | rename source target => exact Operation.ends_renameTable source target
  | drop table => exact Operation.ends_dropTable table

/-! ## Runs of migrations -/

/-- When a migration has defined its table, it fails exactly if it could not write the record. Then
all rows in memory stay. Otherwise those of its tables are forgotten. -/
theorem rows_forgotten_iff {σ : Type} (db : Database σ) (naming : TableNaming)
    (call : MigrationCall) (w w' : World σ) (result : Except StoreError Unit)
    (steps : List Answered) (hexec : (call.operation naming).exec db w = (result, w'))
    (hsteps : (call.operation naming).transcript db w = steps) (hdefined : TableDefined steps) :
    ((∀ table ∈ call.tables, ∀ key, w'.caches.rows? table key = none) ↔
        ¬ RecordFailed naming steps ∨
          ∀ table ∈ call.tables, ∀ key, w.caches.rows? table key = none) ∧
      (result = .ok () ↔ ¬ RecordFailed naming steps) ∧
      (RecordFailed naming steps → w'.caches.rows = w.caches.rows) := by
  have hpath : (call.operation naming).Path steps result := by
    have hrun := Operation.path_exec db (call.operation naming) w
    rwa [hsteps, hexec] at hrun
  have hrows : w'.caches.rows = steps.foldl rowsAfter w.caches.rows := by
    have hrun := Program.rows_run db (call.operation naming).run w
    rw [show (call.operation naming).run.run db w = (result, w') from hexec] at hrun
    exact hrun.trans (congrArg (List.foldl rowsAfter w.caches.rows) hsteps)
  rcases call.ends _ _ hpath with ⟨_, hundefined⟩ | hsettles
  · exact absurd hdefined hundefined
  · cases hsettles with
    | unrecorded hleaves hfailed =>
      rw [foldl_rowsAfter_same hleaves] at hrows
      refine ⟨?_, iff_of_false nofun (not_not_intro hfailed), fun _ => hrows⟩
      unfold Caches.rows?
      rw [hrows]
      exact (or_iff_right (not_not_intro hfailed)).symm
    | finished hkeeps hrecorded hforgotten =>
      refine ⟨iff_of_true (fun table htable key => ?_) (Or.inl hrecorded),
        iff_of_true rfl hrecorded, fun hfailed => absurd hfailed hrecorded⟩
      unfold Caches.rows?
      rw [hrows]
      exact get?_foldl_rowsAfter hkeeps (Or.inl (hforgotten table htable))

/-! ## Two runs -/

section Runs

/-- A query of the table `t`. -/
def everyRow : SelectQuery := { table := "t" }

def oneRow : QueryResult := .rows [.ofList [("a", .bool true)]]

/-- The table `t` has its record, and an answer from it is in memory. -/
def rememberedRows (failures : List String) : World Backend where
  caches := (Caches.empty.keepRows "t" everyRow.cacheKey oneRow 0).2
  database := { naming := {}, records := .ofList [("t", Records.encode ∅)], failures }
  handlers := { hook := migrationHook }

theorem rows?_rememberedRows (failures : List String) :
    (rememberedRows failures).caches.rows? "t" everyRow.cacheKey = some oneRow :=
  (GroupedCache.get?_set ..).trans (if_pos ⟨rfl, rfl⟩)

/-- The table is dropped and nothing fails. -/
theorem rows_forgotten_iff_dropped :
    ∃ w', ((MigrationCall.drop "t").operation {}).exec scripted (rememberedRows []) = (.ok (), w') ∧
      (rememberedRows []).caches.rows? "t" everyRow.cacheKey = some oneRow ∧
      ∀ key, w'.caches.rows? "t" key = none := by
  have hdefined : TableDefined
      (((MigrationCall.drop "t").operation {}).transcript scripted (rememberedRows [])) :=
    ⟨{ sql := Definition.dropTable {} "t" }, _, ⟨"DROP TABLE ", by simp, by decide⟩,
      List.mem_cons_self⟩
  obtain ⟨hforgotten, hok, _⟩ := rows_forgotten_iff scripted {} (.drop "t") (rememberedRows []) _ _ _
    rfl rfl hdefined
  have hrecorded := hok.mp rfl
  exact ⟨_, rfl, rows?_rememberedRows [], hforgotten.mpr (Or.inl hrecorded) "t" List.mem_cons_self⟩

/-- What is in memory is the answer. -/
theorem exec_selectCached_hit {db : Database σ} {q : SelectQuery} {w : World σ}
    {result : QueryResult} (h : w.caches.rows? q.table q.cacheKey = some result) :
    (Rows.selectCached naming q).exec db w = (.ok result, w) := by
  have hanswer : (w.answer db (.cachedRows q.table q.cacheKey)).1 = some result := h
  unfold Rows.selectCached
  rw [Operation.exec_ask_bind, hanswer]
  rfl

/-- The table is dropped, its record is not, and the next query is answered from memory. -/
theorem not_rows_forgotten_recordKept :
    ∃ steps e w', ((MigrationCall.drop "t").operation {}).transcript scripted
        (rememberedRows ["DELETE FROM"]) = steps ∧ TableDefined steps ∧
      ((MigrationCall.drop "t").operation {}).exec scripted (rememberedRows ["DELETE FROM"]) =
        (.error e, w') ∧
      ¬ (∀ table ∈ (MigrationCall.drop "t").tables, ∀ key, w'.caches.rows? table key = none) ∧
      (Rows.selectCached {} everyRow).exec scripted w' = (.ok oneRow, w') := by
  have hthere := rows?_rememberedRows ["DELETE FROM"]
  refine ⟨_, _, _, rfl, ?_, rfl, fun hforgotten => ?_, exec_selectCached_hit hthere⟩
  · exact ⟨{ sql := Definition.dropTable {} "t" }, _, ⟨"DROP TABLE ", by simp, by decide⟩,
      List.mem_cons_self⟩
  · exact nomatch (hforgotten "t" List.mem_cons_self everyRow.cacheKey).symm.trans hthere

end Runs

end ContentTables
