import ContentTables.Proofs.ContentType.CallerFields
import ContentTables.Proofs.Store.Paths

/-!
# The life of a content type

A type is installed, updated any number of times, and uninstalled again.

* `tableDrops` : the statements of a run that drop tables;
* `Operation.Drops` and its rules : what a run issues of them, if it succeeds;
* `keeps_createTable`, `keeps_reconcile`, `keeps_renameTable` : only `Migration.dropTable` issues any;
* `TypeDescriptor.lost`, `drops_update` : an update drops a table where comments are turned off;
* `ContentType.chain`, `moves_chain`, `drops_chain` : from type to type;
* `chain_laidOut` : such a chain leaves the tables of its last type, drops no table but those of
  comments turned off, and leaves nothing behind once the last type is uninstalled;
* `chain_unrecordable` : where the content table of a type cannot be read from its record, the type is
  installed, but no update of it succeeds.

A default that nests more than 125 levels is in a valid schema, but not in one that can be read. A
double may be read back as its neighbour, so that a record does not always hold the schema that was
composed (`chain_not_laidOut`).
-/

namespace ContentTables

open Records (Holds HoldsWritten WrittenFrom encode numbersTable)

variable {σ α β : Type} {naming : TableNaming}

/-! ## Dropped tables -/

namespace Effect

/-- The text of the statement that is asked for. -/
def sql? : Effect → Option String
  | .execute s | .fetch s => some s.sql
  | _ => none

/-- It is no statement that drops a table. -/
def KeepsTables (e : Effect) : Prop := ∀ sql ∈ e.sql?, ¬ "DROP TABLE ".toList <+: sql.toList

theorem keepsTables_of_starts {e : Effect} {word sql : String} (he : e.sql? = some sql)
    (hstart : word.toList <+: sql.toList)
    (hapart : ¬ word.toList <+: "DROP TABLE ".toList ∧ ¬ "DROP TABLE ".toList <+: word.toList) :
    e.KeepsTables := by
  intro sql' hsql' hdrop
  obtain rfl := Option.some.inj (he.symm.trans hsql')
  exact Records.ne_of_starts hstart hdrop hapart rfl

theorem OnSchemas.keepsTables {e : Effect} (h : e.OnSchemas) : e.KeepsTables := by
  cases e with
  | fetch s => exact keepsTables_of_starts rfl h (by decide)
  | execute s => exact h.elim
  | _ => exact nofun

end Effect

/-- The statements that drop tables, in their order. -/
def tableDrops (steps : List Answered) : List String :=
  (steps.filterMap fun step => step.1.sql?).filter fun sql =>
    "DROP TABLE ".toList.isPrefixOf sql.toList

theorem tableDrops_append (first rest : List Answered) :
    tableDrops (first ++ rest) = tableDrops first ++ tableDrops rest := by
  simp [tableDrops]

theorem tableDrops_eq_nil {steps : List Answered} (h : ∀ step ∈ steps, step.1.KeepsTables) :
    tableDrops steps = [] := by
  refine List.filter_eq_nil_iff.mpr fun sql hsql => ?_
  obtain ⟨step, hstep, hsome⟩ := List.mem_filterMap.mp hsql
  rw [List.isPrefixOf_iff_prefix]
  exact h step hstep sql hsome

namespace Operation

variable {x : Operation α} {f : α → Operation β} {first rest : List String}

/-- A run that succeeds has issued these drops. -/
def Drops (sqls : List String) (x : Operation α) : Prop :=
  ∀ steps a, x.Path steps (.ok a) → tableDrops steps = sqls

theorem AsksOnly.drops (h : x.AsksOnly Effect.KeepsTables) : x.Drops [] :=
  fun _ _ hpath => tableDrops_eq_nil (h _ _ hpath)

theorem Drops.bind (hx : x.Drops first) (hf : ∀ a, (f a).Drops rest) :
    (x >>= f).Drops (first ++ rest) := by
  intro steps b h
  rcases path_bind h with ⟨e, _, hnever⟩ | ⟨a, before, after, hbefore, hafter, rfl⟩
  · exact nomatch hnever
  · rw [tableDrops_append, hx _ _ hbefore, hf a _ _ hafter]

theorem drops_forM {τ : Type} {g : τ → Operation Unit} {sqls : τ → List String} {ts : List τ}
    (h : ∀ t ∈ ts, (g t).Drops (sqls t)) : (ts.forM g).Drops (ts.flatMap sqls) := by
  induction ts with
  | nil => exact (asksOnly_pure ()).drops
  | cons t ts ih =>
    rw [List.flatMap_cons]
    exact (h t List.mem_cons_self).bind fun _ => ih fun u hu => h u (List.mem_cons_of_mem t hu)

/-! ### Migrations -/

open Effect (keepsTables_of_starts)

theorem keeps_forget (table : String) : (Records.forget table).AsksOnly Effect.KeepsTables :=
  asksOnly_ask nofun

theorem keeps_finish (event : MigrationEvent) :
    (Migration.finish event).AsksOnly Effect.KeepsTables := by
  unfold Migration.finish
  exact AsksOnly.bind (asksOnly_forM fun _ _ => asksOnly_ask nofun) fun _ => asksOnly_ask nofun

theorem keeps_define {word sql : String} (hstart : word.toList <+: sql.toList)
    (hapart : ¬ word.toList <+: "DROP TABLE ".toList ∧ ¬ "DROP TABLE ".toList <+: word.toList) :
    (Migration.define sql).AsksOnly Effect.KeepsTables := by
  unfold Migration.define
  exact AsksOnly.bind (asksOnly_execute (keepsTables_of_starts rfl hstart hapart)) fun _ =>
    asksOnly_pure _

theorem keeps_replace (key table : String) (schema : TableSchema) :
    (Records.replace naming key table schema).AsksOnly Effect.KeepsTables := by
  have hupdate := Records.updateRecord_starts naming table schema.text key
  unfold Records.replace
  refine AsksOnly.bind (keeps_forget key) fun _ => AsksOnly.bind (keeps_forget table) fun _ => ?_
  refine AsksOnly.bind (asksOnly_execute (keepsTables_of_starts rfl hupdate (by decide)))
    fun _ => ?_
  exact AsksOnly.bind (keeps_forget key) fun _ => keeps_forget table

theorem keeps_createTable (table : String) (schema : TableSchema) :
    (Migration.createTable naming table schema).AsksOnly Effect.KeepsTables := by
  have hcreate := Definition.createTable_starts naming table schema
  have hinsert := Records.insertRecord_starts naming table schema.text
  have hput : (Records.put naming table schema).AsksOnly Effect.KeepsTables := by
    unfold Records.put
    refine AsksOnly.bind (keeps_forget table) fun _ => ?_
    exact AsksOnly.bind (asksOnly_execute (keepsTables_of_starts rfl hinsert (by decide)))
      fun _ => keeps_forget table
  unfold Migration.createTable
  refine AsksOnly.bind (asksOnly_ofExcept _) fun _ => ?_
  refine AsksOnly.bind (keeps_define hcreate (by decide)) fun _ => ?_
  exact AsksOnly.bind hput fun _ => keeps_finish _

theorem keeps_applyDiff (table : String) (stored : TableSchema) (diff : SchemaDiff) :
    (Migration.applyDiff naming table stored diff).AsksOnly Effect.KeepsTables := by
  have hindexes : ∀ sql ∈ Definition.dropIndexes naming table stored diff.dropped,
      (Migration.tryDefine sql).AsksOnly Effect.KeepsTables := by
    intro sql hsql
    have hdrop := Definition.dropIndexes_starts naming hsql
    exact AsksOnly.bind (asksOnly_ask (keepsTables_of_starts rfl hdrop (by decide))) fun _ =>
      asksOnly_pure _
  have hrecord : (do
      Records.replace naming table table (stored.merge diff)
      Migration.finish (.altered table diff) : Operation Unit).AsksOnly Effect.KeepsTables :=
    AsksOnly.bind (keeps_replace table table _) fun _ => keeps_finish _
  unfold Migration.applyDiff
  refine AsksOnly.bind (asksOnly_ofExcept _) fun _ => ?_
  refine AsksOnly.bind (asksOnly_forM hindexes) fun _ => ?_
  split
  · rename_i sql hsql
    have halter := Definition.alterTable?_starts naming hsql
    exact AsksOnly.bind (keeps_define halter (by decide)) fun _ => hrecord
  · exact hrecord

theorem keeps_reconcile (table : String) (desired : TableSchema) :
    (Migration.reconcile naming table desired).AsksOnly Effect.KeepsTables := by
  unfold Migration.reconcile
  refine AsksOnly.bind (asksOnly_ofExcept _) fun _ => ?_
  refine AsksOnly.bind ((asksOnly_find? naming table).mono fun _ h => h.keepsTables) fun found => ?_
  cases found with
  | none => exact AsksOnly.bind (keeps_createTable table desired) fun _ => asksOnly_pure _
  | some stored =>
    simp only
    split
    · exact asksOnly_pure _
    · exact AsksOnly.bind (keeps_applyDiff table stored _) fun _ => asksOnly_pure _

theorem keeps_renameTable (source target : String) :
    (Migration.renameTable naming source target).AsksOnly Effect.KeepsTables := by
  have hrename := Definition.renameTable_starts naming source target
  unfold Migration.renameTable
  refine AsksOnly.bind ((asksOnly_get naming source).mono fun _ h => h.keepsTables) fun schema => ?_
  refine AsksOnly.bind (keeps_define hrename (by decide)) fun _ => ?_
  exact AsksOnly.bind (keeps_replace source target schema) fun _ => keeps_finish _

theorem drops_dropTable (table : String) :
    (Migration.dropTable naming table).Drops [Definition.dropTable naming table] := by
  have hdefine : (Migration.define (Definition.dropTable naming table)).Drops
      [Definition.dropTable naming table] := by
    intro steps a h
    unfold Migration.define at h
    rcases path_bind h with ⟨e, _, hnever⟩ | ⟨written, before, after, hbefore, hafter, rfl⟩
    · exact nomatch hnever
    · obtain ⟨answer, rfl, _⟩ := path_execute hbefore
      obtain ⟨rfl, _⟩ := path_pure hafter
      have hdrop := Definition.dropTable_starts naming table
      exact List.filter_cons_of_pos (List.isPrefixOf_iff_prefix.mpr hdrop)
  have hdelete := Records.deleteRecord_starts naming table
  have hrecord : (Records.drop naming table).AsksOnly Effect.KeepsTables := by
    unfold Records.drop
    refine AsksOnly.bind (keeps_forget table) fun _ => ?_
    exact AsksOnly.bind (asksOnly_execute (keepsTables_of_starts rfl hdelete (by decide)))
      fun _ => keeps_forget table
  unfold Migration.dropTable
  exact hdefine.bind fun _ => (AsksOnly.bind hrecord fun _ => keeps_finish _).drops

end Operation

/-! ### Types -/

/-- What is lost when a type becomes another one: the table of its comments, where they are turned
off. -/
def TypeDescriptor.lost (old new : TypeDescriptor) : List String :=
  if old.comments && !new.comments then [TableRole.comments.tableName old.slug] else []

open Operation

section Types
variable {filters : TableFilters} {new old : TypeDescriptor} {wanted existing : List ComposedTable}

theorem keeps_install (d : TypeDescriptor) :
    (ContentType.install naming filters d).AsksOnly Effect.KeepsTables := by
  unfold ContentType.install
  exact AsksOnly.bind (asksOnly_ofExcept _) fun tables =>
    asksOnly_forM fun t _ => keeps_createTable t.table t.schema

theorem drops_moveTable (slug : String) (t : ComposedTable) :
    (ContentType.moveTable naming wanted slug t).Drops
      (if wanted.any (·.role == t.role) then [] else [Definition.dropTable naming t.table]) := by
  unfold ContentType.moveTable
  simp only
  cases wanted.any (·.role == t.role) with
  | false => exact drops_dropTable t.table
  | true =>
    simp only [Bool.not_true, Bool.false_eq_true, if_false, if_true]
    split
    · exact (keeps_renameTable t.table _).drops
    · exact (asksOnly_pure ()).drops

/-- Of the roles that the old type has, the new one lacks at most the comments. -/
theorem flatMap_lost (hnew : new.compose filters = .ok wanted)
    (hold : old.compose filters = .ok existing) :
    (existing.flatMap fun t =>
        if wanted.any (·.role == t.role) then [] else [Definition.dropTable naming t.table]) =
      (old.lost new).map (Definition.dropTable naming) := by
  have hroles := (TypeDescriptor.composeAll_eq_ok (TypeDescriptor.composeAll_of_compose hold)).1
  have hwanted : ∀ role, wanted.any (·.role == role) = true ↔
      (role = .comments → new.comments = true) := fun role =>
    hasRole_iff_any.trans (TypeDescriptor.hasRole_of_compose hnew role)
  have hbyRole : ∀ t ∈ existing,
      (if wanted.any (·.role == t.role) then [] else [Definition.dropTable naming t.table]) =
        if t.role = .comments → new.comments = true then []
        else [Definition.dropTable naming (t.role.tableName old.slug)] := by
    intro t ht
    rw [TypeDescriptor.table_of_compose hold ht]
    exact if_congr (hwanted t.role) rfl rfl
  calc _ = (existing.map (·.role)).flatMap fun role =>
        if role = .comments → new.comments = true then []
        else [Definition.dropTable naming (role.tableName old.slug)] := by
        rw [List.flatMap_map]
        exact List.flatMap_congr hbyRole
    _ = _ := by
        rw [hroles]
        unfold TypeDescriptor.derivedTables TypeDescriptor.lost
        cases old.comments <;> cases new.comments <;> simp

theorem drops_update (hnew : new.compose filters = .ok wanted)
    (hold : old.compose filters = .ok existing) :
    (ContentType.update naming filters new old).Drops
      ((old.lost new).map (Definition.dropTable naming)) := by
  have hreconciled : (wanted.forM fun t => do
      let _ ← Migration.reconcile naming t.table t.schema).AsksOnly Effect.KeepsTables :=
    asksOnly_forM fun t _ => AsksOnly.bind (keeps_reconcile t.table t.schema) fun _ =>
      asksOnly_pure _
  unfold ContentType.update
  rw [hnew, hold, ofExcept_ok_bind, ofExcept_ok_bind, ← flatMap_lost hnew hold,
    ← List.append_nil (List.flatMap _ _)]
  exact (drops_forM fun t _ => drops_moveTable new.slug t).bind fun _ => hreconciled.drops

end Types

/-! ## From type to type -/

namespace ContentType

/-- Each type takes the place of the one before it. -/
def updates (naming : TableNaming) (filters : TableFilters) :
    TypeDescriptor → List TypeDescriptor → Operation Unit
  | _, [] => pure ()
  | old, new :: later => do
    update naming filters new old
    updates naming filters new later

/-- The first type is installed. -/
def chain (naming : TableNaming) (filters : TableFilters) (first : TypeDescriptor)
    (later : List TypeDescriptor) : Operation Unit := do
  install naming filters first
  updates naming filters first later

end ContentType

/-- What is lost on the way from type to type. -/
def TypeDescriptor.lostAll : TypeDescriptor → List TypeDescriptor → List String
  | _, [] => []
  | old, new :: later => old.lost new ++ lostAll new later

section Chains
variable {db : Database σ} {R : RecordTable naming db} (hfree : R.FailsOnly False)
  {filters : TableFilters} {initial : RecordMap} {first : TypeDescriptor}
  {later : List TypeDescriptor}

section Moves
open RecordTable
include hfree

theorem moves_updates {before : RecordMap} {existing : List ComposedTable}
    (hcomposed : ∀ d ∈ later, ∃ tables, Composition filters initial d tables)
    (hrecordable : ∀ d ∈ first :: later, d.Recordable filters)
    (hold : Composition filters initial first existing)
    (hbefore : LaidOut HoldsWritten initial existing before) :
    R.Moves False before (ContentType.updates naming filters first later) fun after _ =>
      ∃ tables, Composition filters initial (later.getLastD first) tables ∧
        LaidOut HoldsWritten initial tables after := by
  induction later generalizing first existing before with
  | nil => exact moves_pure ⟨existing, hold, hbefore⟩
  | cons new later ih =>
    obtain ⟨⟨wanted, hnew⟩, hlater⟩ := List.forall_mem_cons.mp hcomposed
    obtain ⟨hfirst, hrest⟩ := List.forall_mem_cons.mp hrecordable
    have hboth := And.intro hfirst (hrest new List.mem_cons_self)
    rw [List.getLastD_cons]
    exact (moves_update hfree hold hnew hboth hbefore).settle fun after _ hafter =>
      ih hlater hrest hnew hafter

theorem moves_chain
    (hcomposed : ∀ d ∈ first :: later, ∃ tables, Composition filters initial d tables)
    (hrecordable : ∀ d ∈ first :: later, d.Recordable filters) :
    R.Moves False initial (ContentType.chain naming filters first later) fun after _ =>
      ∃ tables, Composition filters initial (later.getLastD first) tables ∧
        LaidOut HoldsWritten initial tables after := by
  obtain ⟨⟨existing, hold⟩, hlater⟩ := List.forall_mem_cons.mp hcomposed
  have hfirst := hrecordable first List.mem_cons_self existing hold.composed
  exact (moves_install hfree hold).settle fun after _ hafter =>
    moves_updates hfree hlater hrecordable hold (hafter.holdsWritten hfirst)

/-- A type whose content table cannot be read from its record is installed, but never becomes another
one. -/
theorem chain_unrecordable {w : World σ} {t : ComposedTable} {rest : List ComposedTable}
    (hw : R.Coherent w) (h : Composition filters (R.recorded w) first (t :: rest))
    (hdistinct : t.schema.Distinct) (ht : ¬ t.schema.Recordable) (new : TypeDescriptor) :
    ∃ w' e w'', (ContentType.install naming filters first).exec db w = (.ok (), w') ∧
      (ContentType.update naming filters new first).exec db w' = (.error e, w'') ∧
      (ContentType.chain naming filters first (new :: later)).exec db w = (.error e, w'') := by
  obtain ⟨_, w', hinstalled, hcoherent, hlaidOut⟩ := (moves_install hfree h).succeeds hw
  have hunreadable : ¬ Readable (R.recorded w' t.table) := by
    rw [(hlaidOut.held t List.mem_cons_self).readable_iff hdistinct]
    exact ht
  obtain ⟨e, w'', hupdated⟩ := (leaves_update_unreadable h.composed hunreadable new).fails hcoherent
  refine ⟨w', e, w'', hinstalled, hupdated, ?_⟩
  unfold ContentType.chain ContentType.updates
  rw [exec_bind_ok db hinstalled, exec_bind_error db hupdated]

end Moves

theorem drops_updates (hcomposed : ∀ d ∈ first :: later, ∃ tables, d.compose filters = .ok tables) :
    (ContentType.updates naming filters first later).Drops
      ((first.lostAll later).map (Definition.dropTable naming)) := by
  induction later generalizing first with
  | nil => exact (asksOnly_pure ()).drops
  | cons new later ih =>
    obtain ⟨⟨existing, hold⟩, hlater⟩ := List.forall_mem_cons.mp hcomposed
    obtain ⟨⟨wanted, hnew⟩, _⟩ := List.forall_mem_cons.mp hlater
    rw [TypeDescriptor.lostAll, List.map_append]
    exact (drops_update hnew hold).bind fun _ => ih hlater

theorem drops_chain (hcomposed : ∀ d ∈ first :: later, ∃ tables, d.compose filters = .ok tables) :
    (ContentType.chain naming filters first later).Drops
      ((first.lostAll later).map (Definition.dropTable naming)) :=
  (keeps_install first).drops.bind fun _ => drops_updates hcomposed

end Chains

/-! ## A whole life -/

/-- From type to type, with tables that were not there before, and back. -/
theorem chain_laidOut {db : Database σ} (R : RecordTable naming db) (hfree : R.FailsOnly False)
    (filters : TableFilters) (first : TypeDescriptor) (later : List TypeDescriptor) (w : World σ)
    (hw : R.Coherent w) (hcomposable : ∀ d ∈ first :: later, d.Composable filters)
    (hrecordable : ∀ d ∈ first :: later, d.Recordable filters)
    (habsent : ∀ d ∈ first :: later, d.Absent (R.recorded w)) :
    ∃ tables w' w'',
      (later.getLastD first).compose filters = .ok tables ∧
      (ContentType.chain naming filters first later).exec db w = (.ok (), w') ∧
      R.Coherent w' ∧ LaidOut HoldsWritten (R.recorded w) tables (R.recorded w') ∧
      (∀ t ∈ tables, t.schema.Stable → Holds (R.recorded w' t.table) t.schema) ∧
      tableDrops ((ContentType.chain naming filters first later).transcript db w) =
        (first.lostAll later).map (Definition.dropTable naming) ∧
      (ContentType.uninstall naming filters (later.getLastD first)).exec db w' = (.ok (), w'') ∧
      R.Coherent w'' ∧ R.recorded w'' = R.recorded w := by
  have hcomposed : ∀ d ∈ first :: later, ∃ tables, Composition filters (R.recorded w) d tables :=
    fun d hd => TypeDescriptor.exists_composition (hcomposable d hd) (habsent d hd)
  have hlast : (later.getLastD first).Recordable filters :=
    hrecordable _ (List.getLastD_mem_cons ..)
  have hpath := Operation.path_exec db (ContentType.chain naming filters first later) w
  obtain ⟨_, w', hexec, hcoherent, tables, hcomposition, hlaidOut⟩ :=
    (moves_chain hfree hcomposed hrecordable).succeeds hw
  obtain ⟨_, w'', hexec', hcoherent', hback⟩ :=
    (moves_uninstall hfree hcomposition hlast hlaidOut).succeeds hcoherent
  rw [hexec] at hpath
  refine ⟨tables, w', w'', hcomposition.composed, hexec, hcoherent, hlaidOut,
    fun t ht hstable => (hlaidOut.held t ht).holds hstable, ?_, hexec', hcoherent', hback⟩
  refine drops_chain (fun d hd => ?_) _ _ hpath
  obtain ⟨tables, hd⟩ := hcomposed d hd
  exact ⟨tables, hd.composed⟩

section Runs

def noFilters : TableFilters := { hook := tableSchemaHook }

/-- The fields that the kinds bring make valid tables, whatever the flags, and what is recorded of
them can be read. -/
theorem TypeDescriptor.composable_of_noFields {d : TypeDescriptor}
    (hslug : isBlankText d.slug = false) (hfields : d.fields = none) :
    d.Composable noFilters ∧ d.Recordable noFilters := by
  have hgood : d.ownFields.GoodFields := goodFields_ownFields fun fields hsome =>
    nomatch hfields.symm.trans hsome
  have hscalars : ∀ e ∈ d.derivedTables,
      (e.2.entries.all fun x => x.2.default.all Json.isScalar) = true := by
    obtain ⟨slug, kind, hierarchical, comments, fields⟩ := d
    obtain rfl : fields = none := hfields
    -- the slug is not in the schemas
    change ∀ e ∈ TypeDescriptor.derivedTables ⟨"", kind, hierarchical, comments, none⟩, _
    cases kind <;> cases hierarchical <;> cases comments <;> decide
  exact ⟨composable_of_goodFields rfl hslug hgood, recordable_of_derivedTables rfl hslug
    fun e he => TableSchema.recordable_of_scalars (hscalars e he)⟩

def commentedNews : TypeDescriptor := { slug := "news", comments := true }

def nestedPosts : TypeDescriptor := { slug := "posts", hierarchical := true }

/-- The news lose their comments when they become posts. -/
theorem chain_laidOut_commentsOff :
    ∃ tables w' w'',
      nestedPosts.compose noFilters = .ok tables ∧
      (ContentType.chain {} noFilters commentedNews [nestedPosts]).exec (scriptedUnder {} false)
        (oneRecord (encode numbersTable)) = (.ok (), w') ∧
      LaidOut HoldsWritten ((scriptedRecords {} false).recorded
        (oneRecord (encode numbersTable))) tables ((scriptedRecords {} false).recorded w') ∧
      tableDrops ((ContentType.chain {} noFilters commentedNews [nestedPosts]).transcript
        (scriptedUnder {} false) (oneRecord (encode numbersTable))) =
          ["DROP TABLE \x60news_comments\x60"] ∧
      (ContentType.uninstall {} noFilters nestedPosts).exec (scriptedUnder {} false) w' =
        (.ok (), w'') ∧
      (scriptedRecords {} false).recorded w'' =
        (scriptedRecords {} false).recorded (oneRecord (encode numbersTable)) := by
  have htypes : ∀ d ∈ [commentedNews, nestedPosts],
      isBlankText d.slug = false ∧ d.fields.isNone = true ∧
        ∀ e ∈ d.derivedTables, e.1.tableName d.slug ≠ "t" := by
    decide
  have hcomposable : ∀ d ∈ [commentedNews, nestedPosts],
      d.Composable noFilters ∧ d.Recordable noFilters := fun d hd =>
    TypeDescriptor.composable_of_noFields (htypes d hd).1
      (Option.isNone_iff_eq_none.mp (htypes d hd).2.1)
  have habsent : ∀ d ∈ [commentedNews, nestedPosts], d.Absent ((scriptedRecords {} false).recorded
      (oneRecord (encode numbersTable))) := fun d hd e he =>
    recorded_oneRecord_of_ne ((htypes d hd).2.2 e he) _
  obtain ⟨tables, w', w'', hcomposed, hexec, _, hlaidOut, _, hdrops, hback, _, hrestored⟩ :=
    chain_laidOut (scriptedRecords {} false) (scripted_failsOnly {}) noFilters commentedNews
      [nestedPosts] _ (coherent_oneRecord _) (fun d hd => (hcomposable d hd).1)
      (fun d hd => (hcomposable d hd).2) habsent
  exact ⟨tables, w', w'', hcomposed, hexec, hlaidOut, hdrops, hback, hrestored⟩

/-! ## Defaults that are not read as they were written -/

/-- News with a field that has this default. -/
def newsWith (kind : ColumnKind) (value : Json) : TypeDescriptor :=
  { slug := "news", fields := some (.ofList [("x", { kind, default := some value })]) }

section News
variable (kind : ColumnKind) (value : Json)

theorem entries_newsWith :
    (contentTable (newsWith kind value)).entries =
      [("ID", contentKey), ("x", { kind, default := some value }),
        ("created", .currentTimestamp), ("updated", .currentTimestamp)] := rfl

theorem isBlankText_newsWith : isBlankText (newsWith kind value).slug = false := by
  show isBlankText "news" = false
  decide

theorem composable_newsWith (hkind : kind ≠ .enum) :
    (newsWith kind value).Composable noFilters := by
  have hvalid : (newsWith kind value).ownFields.validate = .ok () := by
    cases kind <;> first | rfl | exact absurd rfl hkind
  have hnames : (newsWith kind value).ownFields.names = ["x"] := rfl
  have hgood : (newsWith kind value).ownFields.GoodFields := by
    refine ⟨hvalid, fun name c hget => ?_, ?_⟩
    · have hmem := OrderedMap.get?_eq_some_iff.mp hget
      obtain ⟨-, rfl⟩ := Prod.mk.inj (List.mem_singleton.mp hmem)
      rfl
    · rw [hnames]
      decide
  exact TypeDescriptor.composable_of_goodFields rfl (isBlankText_newsWith kind value) hgood

theorem absent_newsWith : (newsWith kind value).Absent
    ((scriptedRecords {} false).recorded (oneRecord (encode numbersTable))) := by
  intro e he
  have hroles : ∀ role ∈ [TableRole.content, .metadata], role.tableName "news" ≠ "t" := by
    decide
  have hmem : e.1 ∈ (newsWith kind value).derivedTables.map Prod.fst := List.mem_map_of_mem he
  exact recorded_oneRecord_of_ne (hroles e.1 hmem) _

/-- The content table comes first. -/
theorem exists_composition_newsWith (hkind : kind ≠ .enum) :
    ∃ t rest, t.schema = contentTable (newsWith kind value) ∧
      Composition noFilters ((scriptedRecords {} false).recorded (oneRecord (encode numbersTable)))
        (newsWith kind value) (t :: rest) := by
  obtain ⟨tables, h⟩ := TypeDescriptor.exists_composition (composable_newsWith kind value hkind)
    (absent_newsWith kind value)
  have hunfiltered : (newsWith kind value).compose noFilters = .ok _ :=
    TypeDescriptor.compose_of_noHandlers rfl (isBlankText_newsWith kind value)
  obtain rfl := Except.ok.inj (hunfiltered.symm.trans h.composed)
  exact ⟨_, _, rfl, h⟩

theorem distinct_newsWith (h : value.Distinct) :
    (contentTable (newsWith kind value)).Distinct := by
  intro name c hget v hv
  have hmem := OrderedMap.get?_eq_some_iff.mp hget
  rw [entries_newsWith] at hmem
  simp only [List.mem_cons, List.not_mem_nil, or_false, Prod.mk.injEq] at hmem
  obtain ⟨-, rfl⟩ | ⟨-, rfl⟩ | ⟨-, rfl⟩ | ⟨-, rfl⟩ := hmem
  · exact nomatch hv
  · exact Option.some.inj hv ▸ h
  · exact Option.some.inj hv ▸ trivial
  · exact Option.some.inj hv ▸ trivial

end News

/-- Arrays in arrays, that many of them. -/
def nestedArrays : Nat → Json
  | 0 => .null
  | n + 1 => .arr [nestedArrays n]

theorem depth_nestedArrays (n : Nat) : (nestedArrays n).depth = n := by
  induction n with
  | zero => rfl
  | succ n ih => rw [nestedArrays, Json.depth, Json.depthItems, Json.depthItems, ih, Nat.max_zero]

theorem distinct_nestedArrays (n : Nat) : (nestedArrays n).Distinct := by
  induction n with
  | zero => trivial
  | succ n ih => exact ⟨ih, trivial⟩

def deepNews : TypeDescriptor := newsWith .array (nestedArrays 126)

theorem deepNews_not_updated : ∃ w' e w'',
    (ContentType.install {} noFilters deepNews).exec (scriptedUnder {} false)
      (oneRecord (encode numbersTable)) = (.ok (), w') ∧
    (ContentType.update {} noFilters deepNews deepNews).exec (scriptedUnder {} false) w' =
      (.error e, w'') ∧
    (ContentType.chain {} noFilters deepNews [deepNews]).exec (scriptedUnder {} false)
      (oneRecord (encode numbersTable)) = (.error e, w'') := by
  obtain ⟨t, rest, hschema, h⟩ :=
    exists_composition_newsWith .array (nestedArrays 126) (by decide)
  refine chain_unrecordable (scripted_failsOnly {}) (coherent_oneRecord _) h ?_ ?_ deepNews
  · rw [hschema]
    exact distinct_newsWith _ _ (distinct_nestedArrays 126)
  · rw [hschema]
    intro hrecordable
    have hdepth := (hrecordable "x" _ rfl (nestedArrays 126) rfl).2
    rw [depth_nestedArrays] at hdepth
    exact absurd hdepth (by decide)

/-- The literal `1e-25` is read as this double, and the text of this double as the next one. -/
def tiny : Binary64 := ⟨false, 4233087679066701272, by decide⟩

def tinyNews : TypeDescriptor := newsWith .string (.num (.float tiny))

theorem tinyNews_not_held : ∃ tables w,
    tinyNews.compose noFilters = .ok tables ∧
    (ContentType.chain {} noFilters tinyNews []).exec (scriptedUnder {} false)
      (oneRecord (encode numbersTable)) = (.ok (), w) ∧
    ¬ ∀ t ∈ tables, Holds ((scriptedRecords {} false).recorded w t.table) t.schema := by
  obtain ⟨t, rest, hschema, h⟩ :=
    exists_composition_newsWith .string (.num (.float tiny)) (by decide)
  have hinstall : (scriptedRecords {} false).Moves False _
      (ContentType.chain {} noFilters tinyNews [])
      fun after _ => LaidOut WrittenFrom _ (t :: rest) after :=
    (moves_install (scripted_failsOnly {}) h).settle fun _ _ hafter => RecordTable.moves_pure hafter
  obtain ⟨_, w, hexec, _, hlaidOut⟩ := hinstall.succeeds (coherent_oneRecord _)
  refine ⟨t :: rest, w, h.composed, hexec, fun hholds => ?_⟩
  have hwritten := hlaidOut.held t List.mem_cons_self
  have hheld := hholds t List.mem_cons_self
  rw [hschema] at hwritten hheld
  have hcolumn : (contentTable tinyNews).get? "x" =
      some { default := some (.num (.float tiny)) } := rfl
  obtain ⟨c, hread, hsame⟩ := hwritten.readBack_of_holds hheld hcolumn
  have hnext : (Number.float tiny).readBack? =
      some (.float ⟨false, 4233087679066701273, by decide⟩) := by
    decide +kernel
  rw [Column.readBack?_number rfl hnext] at hread
  obtain rfl := Option.some.inj hread
  exact absurd hsame (by decide)

/-- Both types are composable, and nothing fails in the database. A type with arrays 126 deep in a
default is installed, but the update that is to leave it as it is fails. A type with a number as a
default is installed, but its record holds another number. -/
theorem chain_not_laidOut :
    (scriptedRecords {} false).FailsOnly False ∧
    (scriptedRecords {} false).Coherent (oneRecord (encode numbersTable)) ∧
    (∀ d ∈ [deepNews, tinyNews], d.Composable noFilters ∧ d.Absent
      ((scriptedRecords {} false).recorded (oneRecord (encode numbersTable)))) ∧
    (∃ w' e w'',
      (ContentType.install {} noFilters deepNews).exec (scriptedUnder {} false)
        (oneRecord (encode numbersTable)) = (.ok (), w') ∧
      (ContentType.update {} noFilters deepNews deepNews).exec (scriptedUnder {} false) w' =
        (.error e, w'') ∧
      (ContentType.chain {} noFilters deepNews [deepNews]).exec (scriptedUnder {} false)
        (oneRecord (encode numbersTable)) = (.error e, w'')) ∧
    ∃ tables w, tinyNews.compose noFilters = .ok tables ∧
      (ContentType.chain {} noFilters tinyNews []).exec (scriptedUnder {} false)
        (oneRecord (encode numbersTable)) = (.ok (), w) ∧
      ¬ ∀ t ∈ tables, Holds ((scriptedRecords {} false).recorded w t.table) t.schema := by
  refine ⟨scripted_failsOnly {}, coherent_oneRecord _, fun d hd => ?_, deepNews_not_updated,
    tinyNews_not_held⟩
  obtain rfl | rfl : d = deepNews ∨ d = tinyNews := by simpa using hd
  · exact ⟨composable_newsWith _ _ (by decide), absent_newsWith _ _⟩
  · exact ⟨composable_newsWith _ _ (by decide), absent_newsWith _ _⟩

end Runs

end ContentTables
