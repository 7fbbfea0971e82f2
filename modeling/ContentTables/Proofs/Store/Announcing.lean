import ContentTables.Proofs.Store.RowsForgotten

/-!
# What migrations announce

A migration announces one event, in its last step. It gets there exactly if its record was written,
since behind that nothing can fail.

* `announced`, `recordWrites`, `Shows` : the events of a run, and the statements on records that
  succeeded;
* `Effect.Quiet`, `Operation.Commits`, `Operation.Finishes` : neither of both; one write and one
  event, or a failure and neither; no write and the event;
* `commits_createTable`, `commits_applyDiff`, `commits_renameTable`, `commits_dropTable` : the
  migrations that write a record;
* `MigrationCall.committed`, `MigrationCall.commitsAt_operation` : the event and the write of a call
  from a world, and that they are all it announces and writes;
* `MigrationCall.committed_eq_none_iff` : a call that does not fail has them, unless it is a
  reconciliation that changes nothing;
* `World.Alike`, `Program.run_alike` : the handlers make no difference to a run;
* `Program.heard_run` : which of them are called.
-/

namespace ContentTables

open Records (Writes Defines)

variable {σ α β : Type} {naming : TableNaming}

/-! ## Events and writes of a run -/

def Answered.event? : Answered → Option MigrationEvent
  | ⟨.announce event, _⟩ => some event
  | _ => none

/-- The statement has written a record. -/
def Answered.write? (naming : TableNaming) : Answered → Option Statement
  | ⟨.execute s, .ok _⟩ => if Writes naming s then some s else none
  | _ => none

def announced (steps : List Answered) : List MigrationEvent := steps.filterMap Answered.event?

def recordWrites (naming : TableNaming) (steps : List Answered) : List Statement :=
  steps.filterMap (Answered.write? naming)

/-- The events of the run and its writes are these. -/
def Shows (naming : TableNaming) (steps : List Answered) (events : List MigrationEvent)
    (writes : List Statement) : Prop :=
  announced steps = events ∧ recordWrites naming steps = writes

theorem Shows.append {first rest : List Answered} {events events' : List MigrationEvent}
    {writes writes' : List Statement} (hfirst : Shows naming first events writes)
    (hrest : Shows naming rest events' writes') :
    Shows naming (first ++ rest) (events ++ events') (writes ++ writes') := by
  unfold Shows announced recordWrites at *
  rw [List.filterMap_append, List.filterMap_append, hfirst.1, hfirst.2, hrest.1, hrest.2]
  exact ⟨rfl, rfl⟩

/-- It neither announces anything nor writes a record. -/
def Effect.Quiet (naming : TableNaming) : Effect → Prop
  | .announce _ => False
  | .execute s => ¬ Writes naming s
  | _ => True

theorem Effect.OnSchemas.quiet {e : Effect} (h : e.OnSchemas) : e.Quiet naming := by
  cases e <;> first | exact h.elim | trivial

theorem shows_quiet {steps : List Answered} (h : ∀ step ∈ steps, step.1.Quiet naming) :
    Shows naming steps [] [] := by
  have hstep : ∀ step : Answered, step.1.Quiet naming →
      step.event? = none ∧ step.write? naming = none := by
    rintro ⟨e, answer⟩ hquiet
    cases e with
    | announce event => exact hquiet.elim
    | execute s =>
      refine ⟨rfl, ?_⟩
      cases answer with
      | ok written => exact if_neg hquiet
      | error fault => rfl
    | _ => exact ⟨rfl, rfl⟩
  exact ⟨List.filterMap_eq_nil_iff.mpr fun step hmem => (hstep step (h step hmem)).1,
    List.filterMap_eq_nil_iff.mpr fun step hmem => (hstep step (h step hmem)).2⟩

/-- Nothing is shown before the rest. -/
theorem Shows.behind {first rest : List Answered} {events : List MigrationEvent}
    {writes : List Statement} (hfirst : ∀ step ∈ first, step.1.Quiet naming)
    (hrest : Shows naming rest events writes) : Shows naming (first ++ rest) events writes :=
  (shows_quiet hfirst).append hrest

namespace Operation

variable {x : Operation α} {f : α → Operation β} {event : MigrationEvent} {s : Statement}

/-- It succeeds with the event and no write. -/
def Finishes (naming : TableNaming) (event : MigrationEvent) (x : Operation α) : Prop :=
  ∀ steps result, x.Path steps result →
    (∃ a, result = .ok a) ∧ Shows naming steps [event] []

/-- It succeeds with the event and that write, or it fails with neither. -/
def Commits (naming : TableNaming) (event : MigrationEvent) (s : Statement) (x : Operation α) :
    Prop :=
  ∀ steps result, x.Path steps result →
    (∃ a, result = .ok a) ∧ Shows naming steps [event] [s] ∨
    (∃ e, result = .error e) ∧ Shows naming steps [] []

theorem Commits.behind (hx : x.AsksOnly (Effect.Quiet naming))
    (hf : ∀ a, (f a).Commits naming event s) : (x >>= f).Commits naming event s := by
  intro steps result h
  rcases path_bind h with ⟨e, hpath, rfl⟩ | ⟨a, first, rest, hfirst, hrest, rfl⟩
  · exact Or.inr ⟨⟨e, rfl⟩, shows_quiet (hx _ _ hpath)⟩
  · have hquiet := hx _ _ hfirst
    exact (hf a _ _ hrest).imp (.imp_right (.behind hquiet)) (.imp_right (.behind hquiet))

/-- The record is written, and from there on nothing fails. -/
theorem commits_execute_bind (hs : Writes naming s) {f : Written → Operation β}
    (hf : ∀ written, (f written).Finishes naming event) :
    (execute s >>= f).Commits naming event s := by
  intro steps result h
  rcases path_bind h with ⟨e, hpath, rfl⟩ | ⟨written, first, rest, hfirst, hrest, rfl⟩
  · obtain ⟨answer, rfl, hanswer⟩ := path_execute hpath
    cases answer with
    | ok written => exact nomatch hanswer
    | error fault => exact Or.inr ⟨⟨e, rfl⟩, rfl, rfl⟩
  · obtain ⟨answer, rfl, hanswer⟩ := path_execute hfirst
    cases answer with
    | error fault => exact nomatch hanswer
    | ok written' =>
      obtain ⟨hok, hshows⟩ := hf written _ _ hrest
      have hwrite : Answered.write? naming ⟨.execute s, .ok written'⟩ = some s := if_pos hs
      have hfirst : Shows naming [⟨.execute s, .ok written'⟩] [] [s] :=
        ⟨rfl, List.filterMap_cons_some hwrite⟩
      exact Or.inl ⟨hok, hfirst.append hshows⟩

theorem quiet_forget (table : String) :
    (Records.forget table).AsksOnly (Effect.Quiet naming) := asksOnly_ask trivial

/-- Forgetting a schema cannot fail. -/
theorem finishes_forget_bind {table : String} {f : Unit → Operation β}
    (hf : ∀ a, (f a).Finishes naming event) :
    (Records.forget table >>= f).Finishes naming event := by
  intro steps result h
  rcases path_bind h with ⟨e, hpath, _⟩ | ⟨a, first, rest, hfirst, hrest, rfl⟩
  · obtain ⟨_, _, hnever⟩ := path_ask hpath
    exact nomatch hnever
  · exact (hf a _ _ hrest).imp_right (.behind (quiet_forget table _ _ hfirst))

theorem finishes_finish (event : MigrationEvent) :
    (Migration.finish event).Finishes naming event := by
  intro steps result h
  unfold Migration.finish at h
  rcases path_bind h with ⟨e, hpath, _⟩ | ⟨a, first, rest, hfirst, hrest, rfl⟩
  · exact nomatch (path_forgetRows hpath).2
  · obtain ⟨rfl, _⟩ := path_forgetRows hfirst
    obtain ⟨answer, rfl, rfl⟩ := path_ask hrest
    refine ⟨⟨answer, rfl⟩, Shows.behind (fun step hstep => ?_) ⟨rfl, rfl⟩⟩
    obtain ⟨table, _, rfl⟩ := List.mem_map.mp hstep
    exact trivial

/-! ## The migrations -/

section Migrations
variable (naming)

theorem quiet_define {sql : String} (hsql : Defines sql) :
    (Migration.define sql).AsksOnly (Effect.Quiet naming) := by
  have hother : ¬ Writes naming { sql } := Records.not_writes_of_defines hsql
  exact AsksOnly.bind (asksOnly_execute hother) fun _ => asksOnly_pure _

theorem commits_createTable (table : String) (schema : TableSchema) :
    (Migration.createTable naming table schema).Commits naming (.created table)
      (Records.insertRecord naming table schema.text) := by
  unfold Migration.createTable Records.put
  simp only [bind_assoc]
  refine Commits.behind (asksOnly_ofExcept _) fun _ => ?_
  refine Commits.behind (quiet_define naming (Definition.defines_createTable ..)) fun _ => ?_
  refine Commits.behind (quiet_forget table) fun _ => ?_
  refine commits_execute_bind (Records.writes_insertRecord ..) fun _ => ?_
  exact finishes_forget_bind fun _ => finishes_finish _

/-- The record is replaced, and then a migration ends. -/
theorem commits_replace_finish (key table : String) (schema : TableSchema)
    (event : MigrationEvent) :
    (Records.replace naming key table schema >>= fun _ =>
      Migration.finish event).Commits naming event
        (Records.updateRecord naming table schema.text key) := by
  unfold Records.replace
  simp only [bind_assoc]
  refine Commits.behind (quiet_forget key) fun _ => Commits.behind (quiet_forget table) fun _ => ?_
  refine commits_execute_bind (Records.writes_updateRecord ..) fun _ => ?_
  exact finishes_forget_bind fun _ => finishes_forget_bind fun _ => finishes_finish event

theorem commits_applyDiff (table : String) (stored : TableSchema) (diff : SchemaDiff) :
    (Migration.applyDiff naming table stored diff).Commits naming (.altered table diff)
      (Records.updateRecord naming table (stored.merge diff).text table) := by
  have hrecord :=
    commits_replace_finish naming table table (stored.merge diff) (.altered table diff)
  have hindexes : ((Definition.dropIndexes naming table stored diff.dropped).forM
      Migration.tryDefine).AsksOnly (Effect.Quiet naming) := by
    refine asksOnly_forM fun sql hsql => AsksOnly.bind (asksOnly_ask ?_) fun _ => asksOnly_pure _
    exact Records.not_writes_of_defines (Definition.defines_dropIndexes naming hsql)
  unfold Migration.applyDiff
  refine Commits.behind (asksOnly_ofExcept _) fun _ => Commits.behind hindexes fun _ => ?_
  split
  · rename_i sql hsql
    exact Commits.behind (quiet_define naming (Definition.defines_alterTable? naming hsql))
      fun _ => hrecord
  · exact hrecord

theorem commits_renameTable (source target : String) (schema : TableSchema) :
    (Migration.define (Definition.renameTable naming source target) >>= fun _ =>
      Records.replace naming source target schema >>= fun _ =>
        Migration.finish (.renamed source target)).Commits naming (.renamed source target)
          (Records.updateRecord naming target schema.text source) :=
  Commits.behind (quiet_define naming (Definition.defines_renameTable naming source target))
    fun _ => commits_replace_finish naming source target schema _

theorem commits_dropTable (table : String) :
    (Migration.dropTable naming table).Commits naming (.dropped table)
      (Records.deleteRecord naming table) := by
  unfold Migration.dropTable Records.drop
  simp only [bind_assoc]
  refine Commits.behind (quiet_define naming (Definition.defines_dropTable ..)) fun _ => ?_
  refine Commits.behind (quiet_forget table) fun _ => ?_
  refine commits_execute_bind (Records.writes_deleteRecord ..) fun _ => ?_
  exact finishes_forget_bind fun _ => finishes_finish _

end Migrations

end Operation

/-! ## Runs -/

theorem Program.transcript_bind (db : Database σ) (p : Program α) (f : α → Program β)
    (w : World σ) :
    (p.bind f).transcript db w =
      p.transcript db w ++ (f (p.run db w).1).transcript db (p.run db w).2 := by
  induction p generalizing w with
  | done a => rfl
  | perform e next ih => simp only [bind, transcript, run, ih, List.cons_append]

theorem Operation.transcript_bind (db : Database σ) (x : Operation α) (f : α → Operation β)
    (w : World σ) : (x >>= f).transcript db w = x.transcript db w ++
      match x.exec db w with
      | (.ok a, w') => (f a).transcript db w'
      | (.error _, _) => [] := by
  refine (Program.transcript_bind db x.run (ExceptT.bindCont f) w).trans ?_
  show x.transcript db w ++ Program.transcript db (ExceptT.bindCont f (x.exec db w).1) _ = _
  rcases hexec : x.exec db w with ⟨e | a, w'⟩
  · rfl
  · rw [show x.run.run db w = _ from hexec]
    rfl

/-- An event, and the statement that writes the record. -/
abbrev CommittedChange := MigrationEvent × Statement

/-- The change, unless the run has failed. -/
def unlessFailed : Except StoreError α → Option CommittedChange → Option CommittedChange
  | .ok _, change => change
  | .error _, _ => none

namespace Operation

variable {db : Database σ} {w : World σ} {x : Operation α} {f : α → Operation β}

/-- A run that succeeds announces and writes this change, and one that fails announces and writes
nothing. -/
def CommitsAt (naming : TableNaming) (db : Database σ) (w : World σ) (x : Operation α)
    (change : Option CommittedChange) : Prop :=
  let committed := (unlessFailed (x.exec db w).1 change).toList
  Shows naming (x.transcript db w) (committed.map Prod.fst) (committed.map Prod.snd)

variable {change : Option CommittedChange}

theorem Commits.at {event : MigrationEvent} {s : Statement} (h : x.Commits naming event s)
    (db : Database σ) (w : World σ) : x.CommitsAt naming db w (some (event, s)) := by
  unfold CommitsAt
  rcases h _ _ (path_exec db x w) with ⟨⟨a, hok⟩, hruns⟩ | ⟨⟨e, hfails⟩, hruns⟩
  · rw [hok]
    exact hruns
  · rw [hfails]
    exact hruns

theorem commitsAt_pure (a : α) :
    (pure a : Operation α).CommitsAt naming db w none := ⟨rfl, rfl⟩

theorem CommitsAt.behind (hx : x.AsksOnly (Effect.Quiet naming))
    (hf : ∀ a w', x.exec db w = (.ok a, w') → (f a).CommitsAt naming db w' change) :
    (x >>= f).CommitsAt naming db w change := by
  have hquiet := hx _ _ (path_exec db x w)
  unfold CommitsAt
  rw [transcript_bind, exec_bind]
  refine Shows.behind hquiet ?_
  rcases hexec : x.exec db w with ⟨e | a, w'⟩
  · exact ⟨rfl, rfl⟩
  · exact hf a w' hexec

/-- What is made of the result does not matter. -/
theorem CommitsAt.andThen {b : β} (hx : x.CommitsAt naming db w change) :
    (x >>= fun _ => pure b : Operation β).CommitsAt naming db w change := by
  unfold CommitsAt at hx ⊢
  rw [transcript_bind, exec_bind]
  rcases hexec : x.exec db w with ⟨e | a, w'⟩ <;> rw [hexec] at hx
  · rwa [List.append_nil]
  · exact (List.append_nil (x.transcript db w)).symm ▸ hx

theorem exec_get_ok {table : String} {stored : TableSchema} {w' : World σ}
    (h : (Records.get naming table).exec db w = (.ok stored, w')) :
    ((Records.find? naming table).exec db w).1 = .ok (some stored) := by
  unfold Records.get at h
  obtain ⟨found, v, hfind, hrest⟩ := (exec_bind_eq_ok_iff db).mp h
  cases found with
  | none => exact nomatch hrest
  | some schema =>
    cases hrest
    rw [hfind]

end Operation

namespace MigrationCall

/-- The table whose schema is looked up. -/
def source : MigrationCall → String
  | .create table _ | .reconcile table _ | .update table _ | .drop table => table
  | .rename source _ => source

/-- What the call announces and writes, in view of the schema that it finds. -/
def change? (naming : TableNaming) : MigrationCall → Option TableSchema →
    Option CommittedChange
  | .create table schema, _ => some (.created table, Records.insertRecord naming table schema.text)
  | .reconcile table desired, none =>
    some (.created table, Records.insertRecord naming table desired.text)
  | .reconcile table desired, some stored =>
    let diff := stored.diff desired
    if diff.isEmpty then none
    else some (.altered table diff,
      Records.updateRecord naming table (stored.merge diff).text table)
  | .update table diff, found => found.map fun stored =>
    (.altered table diff, Records.updateRecord naming table (stored.merge diff).text table)
  | .rename source target, found => found.map fun schema =>
    (.renamed source target, Records.updateRecord naming target schema.text source)
  | .drop table, _ => some (.dropped table, Records.deleteRecord naming table)

section Committed
variable (naming) (db : Database σ) (w : World σ)

def found (call : MigrationCall) : Option TableSchema :=
  ((Records.find? naming call.source).exec db w).1.toOption.join

/-- What a run of the call announces and writes, which is nothing if it fails. -/
def committed (call : MigrationCall) : Option CommittedChange :=
  unlessFailed ((call.operation naming).exec db w).1
    (call.change? naming (call.found naming db w))

end Committed

open Operation

theorem found_of_find? {db : Database σ} {w w' : World σ} {call : MigrationCall}
    {found : Option TableSchema}
    (h : (Records.find? naming call.source).exec db w = (.ok found, w')) :
    call.found naming db w = found := by
  unfold MigrationCall.found
  rw [h]
  rfl

theorem found_of_get {db : Database σ} {w w' : World σ} {call : MigrationCall}
    {stored : TableSchema} (h : (Records.get naming call.source).exec db w = (.ok stored, w')) :
    call.found naming db w = some stored := by
  unfold found
  rw [exec_get_ok h]
  rfl

theorem commitsAt_reconcile (db : Database σ) (w : World σ) (table : String)
    (desired : TableSchema) :
    (Migration.reconcile naming table desired).CommitsAt naming db w
      ((reconcile table desired).change? naming ((reconcile table desired).found naming db w)) := by
  unfold Migration.reconcile
  refine CommitsAt.behind (asksOnly_ofExcept _) fun _ w' hvalidated => ?_
  rw [exec_ofExcept] at hvalidated
  obtain rfl := (Prod.mk.inj hvalidated).2
  have hfind : (Records.find? naming table).AsksOnly (Effect.Quiet naming) :=
    (asksOnly_find? naming table).mono fun _ h => h.quiet
  refine CommitsAt.behind hfind fun found w' hexec => ?_
  rw [found_of_find? hexec]
  cases found with
  | none => exact ((commits_createTable naming table desired).at db w').andThen
  | some stored =>
    simp only [change?]
    split
    · exact commitsAt_pure _
    · exact ((commits_applyDiff naming table stored _).at db w').andThen

theorem commitsAt_operation (naming : TableNaming) (db : Database σ) (w : World σ)
    (call : MigrationCall) : (call.operation naming).CommitsAt naming db w
      (call.change? naming (call.found naming db w)) := by
  have hget : ∀ table, (Records.get naming table).AsksOnly (Effect.Quiet naming) :=
    fun table => (asksOnly_get naming table).mono fun _ h => h.quiet
  cases call with
  | create table schema => exact (commits_createTable naming table schema).at db w
  | reconcile table desired => exact (commitsAt_reconcile db w table desired).andThen
  | update table diff =>
    refine CommitsAt.behind (hget table) fun stored w' hexec => ?_
    rw [found_of_get hexec]
    exact (commits_applyDiff naming table stored diff).at db w'
  | rename source target =>
    refine CommitsAt.behind (hget source) fun schema w' hexec => ?_
    rw [found_of_get hexec]
    exact (commits_renameTable naming source target schema).at db w'
  | drop table => exact (commits_dropTable naming table).at db w

/-- The outcome of a reconciliation that succeeds, in view of the schema that it finds. -/
theorem outcome_eq {db : Database σ} {w w' : World σ} {table : String} {desired : TableSchema}
    {outcome : ReconcileOutcome}
    (h : (Migration.reconcile naming table desired).exec db w = (.ok outcome, w')) :
    outcome = match (reconcile table desired).found naming db w with
      | none => .created
      | some stored => if (stored.diff desired).isEmpty then .unchanged else .altered := by
  unfold Migration.reconcile at h
  obtain ⟨_, v, hvalidated, h⟩ := (exec_bind_eq_ok_iff db).mp h
  obtain ⟨found, v', hfind, h⟩ := (exec_bind_eq_ok_iff db).mp h
  rw [exec_ofExcept] at hvalidated
  obtain rfl := (Prod.mk.inj hvalidated).2
  rw [found_of_find? hfind]
  cases found with
  | none =>
    obtain ⟨_, _, _, hlast⟩ := (exec_bind_eq_ok_iff db).mp h
    cases hlast
    rfl
  | some stored =>
    simp only at h ⊢
    split at h
    · rename_i hempty
      cases h
      exact (if_pos hempty).symm
    · rename_i hdiffers
      obtain ⟨_, _, _, hlast⟩ := (exec_bind_eq_ok_iff db).mp h
      cases hlast
      exact (if_neg hdiffers).symm

/-- A call commits nothing exactly if it fails or is a reconciliation that finds nothing to do. -/
theorem committed_eq_none_iff {db : Database σ} {w : World σ} {call : MigrationCall} :
    call.committed naming db w = none ↔ (∃ e, ((call.operation naming).exec db w).1 = .error e) ∨
      ∃ table desired, call = .reconcile table desired ∧
        ((Migration.reconcile naming table desired).exec db w).1 = .ok .unchanged := by
  unfold committed
  rcases hexec : (call.operation naming).exec db w with ⟨e | _, w'⟩
  · exact iff_of_true rfl (Or.inl ⟨e, rfl⟩)
  have hfound : ∀ {f : TableSchema → Operation Unit},
      call.operation naming = (Records.get naming call.source >>= f) →
        ∃ stored, call.found naming db w = some stored := by
    intro f hcall
    rw [hcall, exec_bind_eq_ok_iff] at hexec
    obtain ⟨stored, v, hget, _⟩ := hexec
    exact ⟨stored, found_of_get hget⟩
  cases call with
  | create table schema => simp [unlessFailed, change?]
  | drop table => simp [unlessFailed, change?]
  | update table diff =>
    obtain ⟨stored, hstored⟩ := hfound rfl
    simp [unlessFailed, change?, hstored]
  | rename source target =>
    obtain ⟨stored, hstored⟩ := hfound rfl
    simp [unlessFailed, change?, hstored]
  | reconcile table desired =>
    obtain ⟨outcome, v, hreconcile, _⟩ := (exec_bind_eq_ok_iff db).mp hexec
    have hunchanged : outcome = .unchanged ↔ change? naming (reconcile table desired)
        ((reconcile table desired).found naming db w) = none := by
      rw [outcome_eq hreconcile]
      cases (reconcile table desired).found naming db w with
      | none => exact iff_of_false nofun nofun
      | some stored =>
        simp only [change?]
        split <;> simp
    simp [unlessFailed, hreconcile, hunchanged]

end MigrationCall

/-! ## Handlers -/

namespace World

/-- They differ in their handlers, and in what those were told, only. -/
def Alike (w w' : World σ) : Prop := w.database = w'.database ∧ w.caches = w'.caches

theorem Alike.answer {w w' : World σ} (h : w.Alike w') (db : Database σ) (e : Effect) :
    (w.answer db e).1 = (w'.answer db e).1 ∧ (w.answer db e).2.Alike (w'.answer db e).2 := by
  obtain ⟨caches, database, handlers, heard⟩ := w
  obtain ⟨caches', database', handlers', heard'⟩ := w'
  obtain ⟨rfl, rfl⟩ := h
  cases e <;> exact ⟨rfl, rfl, rfl⟩

/-- The handlers that are called for an event, each with the event. -/
def called (w : World σ) (event : MigrationEvent) : List (String × MigrationEvent) :=
  (w.handlers.trigger event).1.map fun name => (name, event)

theorem heard_answer (db : Database σ) (w : World σ) (e : Effect) :
    (w.answer db e).2.handlers = w.handlers ∧ (w.answer db e).2.heard =
      w.heard ++ (announced [⟨e, (w.answer db e).1⟩]).flatMap w.called := by
  cases e with
  | announce event =>
    refine ⟨rfl, ?_⟩
    show w.heard ++ w.called event = w.heard ++ (w.called event ++ [])
    rw [List.append_nil]
  | _ => exact ⟨rfl, (List.append_nil w.heard).symm⟩

end World

namespace Program

/-- The handlers make no difference to what a run asks for, and to what comes of it. -/
theorem run_alike (db : Database σ) (p : Program α) {w w' : World σ} (h : w.Alike w') :
    (p.run db w).1 = (p.run db w').1 ∧ p.transcript db w = p.transcript db w' ∧
      (p.run db w).2.Alike (p.run db w').2 := by
  induction p generalizing w w' with
  | done a => exact ⟨rfl, rfl, h⟩
  | perform e next ih =>
    have halike := h.answer db e
    rcases hw : w.answer db e with ⟨answer, v⟩
    rcases hw' : w'.answer db e with ⟨answer', v'⟩
    rw [hw, hw'] at halike
    obtain ⟨rfl, hv⟩ := halike
    obtain ⟨hresult, hsteps, hworld⟩ := ih _ hv
    simp only [run, transcript, hw, hw']
    exact ⟨hresult, congrArg _ hsteps, hworld⟩

/-- The handlers are called for the events of the run, in order. -/
theorem heard_run (db : Database σ) (p : Program α) (w : World σ) :
    (p.run db w).2.heard = w.heard ++ (announced (p.transcript db w)).flatMap w.called := by
  induction p generalizing w with
  | done a => exact (List.append_nil w.heard).symm
  | perform e next ih =>
    obtain ⟨hhandlers, hheard⟩ := w.heard_answer db e
    have hcalled : (w.answer db e).2.called = w.called := by
      unfold World.called
      rw [hhandlers]
    have hsplit : announced (transcript db (.perform e next) w) =
        announced [⟨e, (w.answer db e).1⟩] ++
          announced ((next (w.answer db e).1).transcript db (w.answer db e).2) :=
      List.filterMap_append (l := [_])
    show ((next (w.answer db e).1).run db (w.answer db e).2).2.heard = _
    rw [ih, hheard, hcalled, hsplit, List.flatMap_append, List.append_assoc]

end Program

end ContentTables
