import ContentTables.Proofs.ContentType.Planned

/-!
# What operations make of the view

Much of what is kept throughout concerns the records and the schemas in memory only, and it is kept
where an operation fails as well as where it does not. Memory need not be coherent here.

* `StoreView`, `RecordTable.view` : the records of a world, and its schemas in memory;
* `RecordTable.Leads` : from a view an operation leads to such a view with its result, or to such a
  view when it fails;
* `Leads.bind`, `Leads.still` and the rules for single steps;
* `leads_find?`, `leads_get`, `leads_put`, `leads_replace`, `leads_drop` : operations on records;
* `RecordTable.Preserves`, `preserves_request`, `preserved_by_session` : what all migrations keep is
  kept by every request and every run of requests.
-/

namespace ContentTables

open Function (update)

variable {σ α β : Type}

structure StoreView where
  records : RecordMap
  /-- The schemas in memory. -/
  schemas : String → Option TableSchema

namespace StoreView

def forget (v : StoreView) (table : String) : StoreView :=
  { v with schemas := update v.schemas table none }

/-- The schema is forgotten, and the record is this one. -/
def write (v : StoreView) (table : String) (record : Option Row) : StoreView :=
  { v.forget table with records := update v.records table record }

def put (v : StoreView) (table : String) (schema : TableSchema) : StoreView :=
  v.write table (some (Records.encode schema))

def drop (v : StoreView) (table : String) : StoreView := v.write table none

/-- The record of a key replaced. A key without a record has nothing to replace. -/
def replace (v : StoreView) (key table : String) (schema : TableSchema) : StoreView :=
  if (v.records key).isSome then (v.drop key).put table schema
  else (v.forget key).forget table

theorem replace_eq (v : StoreView) (key table : String) (schema : TableSchema) :
    v.replace key table schema =
      { (v.forget key).forget table with
        records := if (v.records key).isSome then
            update (update v.records key none) table (some (Records.encode schema))
          else v.records } := by
  unfold replace
  split <;> rfl

/-- A schema has been looked up, so that the one of its record may be in memory. -/
def LooksUp (table : String) (v v' : StoreView) : Prop :=
  v'.records = v.records ∧ ∀ key cached, v'.schemas key = some cached →
    v.schemas key = some cached ∨ key = table ∧ RecordTable.Found (v.records key) (some cached)

theorem LooksUp.refl (table : String) (v : StoreView) : LooksUp table v v :=
  ⟨rfl, fun _ _ hcached => Or.inl hcached⟩

end StoreView

open StoreView (LooksUp)

namespace RecordTable

variable {naming : TableNaming} {db : Database σ} (R : RecordTable naming db)

def view (w : World σ) : StoreView := ⟨R.recorded w, w.caches.schema?⟩

def Leads (v : StoreView) (x : Operation α) (Q : α → StoreView → Prop) (E : StoreView → Prop) :
    Prop :=
  ∀ w, R.view w = v → match x.exec db w with
    | (.ok a, w') => Q a (R.view w')
    | (.error _, w') => E (R.view w')

/-- What holds before also holds afterwards, whether the operation fails or not. -/
def Preserves (P : StoreView → Prop) (x : Operation α) : Prop :=
  ∀ v, P v → R.Leads v x (fun _ => P) P

variable {R} {v : StoreView} {Q : α → StoreView → Prop} {S : β → StoreView → Prop}
  {E : StoreView → Prop} {x : Operation α} {f : α → Operation β}

/-! ## Rules -/

theorem Leads.mono {Q' : α → StoreView → Prop} {E' : StoreView → Prop} (h : R.Leads v x Q E)
    (hQ : ∀ a v', Q a v' → Q' a v') (hE : ∀ v', E v' → E' v') : R.Leads v x Q' E' := by
  intro w hw
  have hx := h w hw
  rcases hexec : x.exec db w with ⟨e | a, w'⟩ <;> rw [hexec] at hx
  · exact hE _ hx
  · exact hQ a _ hx

theorem Leads.bind (hx : R.Leads v x Q E) (hf : ∀ a v', Q a v' → R.Leads v' (f a) S E) :
    R.Leads v (x >>= f) S E := by
  intro w hw
  have hfirst := hx w hw
  rw [Operation.exec_bind]
  rcases hexec : x.exec db w with ⟨e | a, w'⟩ <;> rw [hexec] at hfirst
  · exact hfirst
  · exact hf a _ hfirst w' rfl

/-- The first part leaves the view as it is. -/
theorem Leads.still (hx : R.Leads v x (fun _ => (· = v)) E) (hf : ∀ a, R.Leads v (f a) S E) :
    R.Leads v (x >>= f) S E := by
  refine hx.bind ?_
  rintro a _ rfl
  exact hf a

theorem leads_pure {a : α} (h : Q a v) : R.Leads v (pure a) Q E := by
  rintro w rfl
  exact h

theorem leads_throw {e : StoreError} (h : E v) : R.Leads v (throw e : Operation α) Q E := by
  rintro w rfl
  exact h

theorem leads_ofExcept_bind {given : Except StoreError α} (hE : E v)
    (hf : ∀ a, given = .ok a → R.Leads v (f a) S E) :
    R.Leads v (Operation.ofExcept given >>= f) S E := by
  cases given with
  | ok a => exact hf a rfl
  | error e => exact leads_throw hE

/-! ## Single steps -/

/-- An effect on memory that leaves the schemas. -/
theorem leads_ask {e : Effect} (he : ∀ w : World σ, (w.answer db e).2.database = w.database ∧
    (w.answer db e).2.caches.schemas = w.caches.schemas) :
    R.Leads v (Operation.ask e) (fun _ => (· = v)) E := by
  rintro w rfl
  obtain ⟨hdatabase, hschemas⟩ := he w
  show R.view (w.answer db e).2 = R.view w
  unfold view recorded Caches.schema?
  rw [hdatabase, hschemas]

theorem leads_cachedSchema (table : String) : R.Leads v (Operation.ask (.cachedSchema table))
    (fun cached v' => v' = v ∧ cached = v.schemas table) E := by
  rintro w rfl
  exact ⟨rfl, rfl⟩

/-- The schema is in memory afterwards, or nothing has changed. -/
theorem leads_keepSchema {table : String} {schema : TableSchema} {generation : Nat} :
    R.Leads v (Operation.ask (.keepSchema table schema generation))
      (fun _ v' => v'.records = v.records ∧ ∀ key cached, v'.schemas key = some cached →
        key = table ∧ cached = schema ∨ v.schemas key = some cached) E := by
  rintro w rfl
  exact ⟨rfl, fun _ _ hcached => (Caches.schema?_keepSchema hcached).imp_left fun hkept => hkept.2⟩

theorem leads_forget (table : String) :
    R.Leads v (Records.forget table) (fun _ => (· = v.forget table)) E := by
  rintro w rfl
  have hschemas : (w.caches.forgetSchema table).schema? = update w.caches.schema? table none := by
    funext key
    rw [Caches.schema?_forgetSchema, Function.update_apply]
  exact congrArg (StoreView.mk (R.recorded w)) hschemas

theorem view_fetch (w : World σ) (s : Statement) :
    R.view { w with database := (db.fetch w.database s).2 } = R.view w := by
  unfold view recorded
  rw [R.fetch_same]

theorem leads_fetch (hE : E v) (s : Statement) :
    R.Leads v (Operation.fetch s) (fun _ => (· = v)) E := by
  rintro w rfl
  rw [Operation.exec_fetch]
  cases (db.fetch w.database s).1 with
  | error fault => exact (congrArg E (view_fetch w s)).mpr hE
  | ok rows => exact view_fetch w s

theorem leads_fetchRecord (hE : E v) (table : String) : R.Leads v
    (Operation.fetch (Records.selectSchema naming table))
    (fun rows v' => v' = v ∧ rows.head? = v.records table) E := by
  rintro w rfl
  have hview := view_fetch (R := R) w (Records.selectSchema naming table)
  rw [Operation.exec_fetch]
  cases hresult : (db.fetch w.database (Records.selectSchema naming table)).1 with
  | error fault => exact (congrArg E hview).mpr hE
  | ok rows => exact ⟨hview, R.fetch_record hresult⟩

/-- A statement that fails leaves the view as it is. -/
theorem leads_execute {s : Statement} {Q : StoreView → Prop} (hE : E v)
    (h : ∀ {state written}, R.records state = v.records →
      (db.execute state s).1 = .ok written → Q ⟨R.records (db.execute state s).2, v.schemas⟩) :
    R.Leads v (Operation.execute s) (fun _ => Q) E := by
  rintro w rfl
  rw [Operation.exec_execute]
  cases hresult : (db.execute w.database s).1 with
  | error fault =>
    have hview : R.view { w with database := (db.execute w.database s).2 } = R.view w := by
      unfold view recorded
      rw [R.failed_same hresult]
    exact (congrArg E hview).mpr hE
  | ok written => exact h rfl hresult

theorem leads_execute_other {s : Statement} (hE : E v) (hs : ¬ Records.Writes naming s) :
    R.Leads v (Operation.execute s) (fun _ => (· = v)) E :=
  leads_execute hE fun hrecords _ => by rw [R.other_same hs, hrecords]

/-! ## Records -/

section Records
variable {table key : String} {schema : TableSchema}

/-- What is found was in memory, or it is in the record. -/
theorem leads_find? (table : String) : R.Leads v (Records.find? naming table)
    (fun found v' => LooksUp table v v' ∧
      (found = v.schemas table ∨ Found (v.records table) found)) (LooksUp table v) := by
  unfold Records.find?
  refine (leads_cachedSchema table).bind ?_
  rintro cached _ ⟨rfl, hcached⟩
  cases cached with
  | some schema => exact leads_pure ⟨.refl .., Or.inl hcached⟩
  | none =>
    refine (leads_ask fun _ => ⟨rfl, rfl⟩).still fun generation => ?_
    refine (leads_fetchRecord (.refl ..) table).bind ?_
    rintro rows _ ⟨rfl, hrows⟩
    cases hhead : rows.head? with
    | none => exact leads_pure ⟨.refl .., Or.inr (hrows.symm.trans hhead)⟩
    | some record =>
      have hrecord := hrows.symm.trans hhead
      refine leads_ofExcept_bind (.refl ..) fun schema hdecoded => ?_
      refine leads_keepSchema.bind ?_
      rintro _ v' ⟨hrecords, hschemas⟩
      refine leads_pure
        ⟨⟨hrecords, fun key cached hcached => ?_⟩, Or.inr ⟨record, hrecord, hdecoded⟩⟩
      rcases hschemas key cached hcached with ⟨rfl, rfl⟩ | hcached
      · exact Or.inr ⟨rfl, record, hrecord, hdecoded⟩
      · exact Or.inl hcached

theorem leads_get (table : String) : R.Leads v (Records.get naming table)
    (fun schema v' => LooksUp table v v' ∧
      (some schema = v.schemas table ∨ Found (v.records table) (some schema)))
    (LooksUp table v) := by
  unfold Records.get
  refine (leads_find? table).bind fun found v' hfound => ?_
  cases found with
  | some schema => exact leads_pure hfound
  | none => exact leads_throw hfound.1

theorem leads_put (hE : E (v.forget table)) : R.Leads v (Records.put naming table schema)
    (fun _ v' => v.records table = none ∧ v' = v.put table schema) E := by
  have hwrite : R.Leads (v.forget table)
      (Operation.execute (Records.insertRecord naming table schema.text))
      (fun _ v' => v.records table = none ∧ v' = v.put table schema) E := by
    refine leads_execute hE fun hrecords hwritten => ?_
    obtain ⟨hfresh, hrecord⟩ := R.insert hwritten
    rw [hrecords] at hfresh hrecord
    exact ⟨hfresh, congrArg (StoreView.mk · _) hrecord⟩
  unfold Records.put
  refine (leads_forget table).bind ?_
  rintro _ _ rfl
  refine hwrite.bind ?_
  rintro _ _ ⟨hfresh, rfl⟩
  refine (leads_forget table).mono ?_ fun _ h => h
  rintro _ _ rfl
  exact ⟨hfresh, congrArg (StoreView.mk _) (Function.update_idem ..)⟩

theorem leads_replace (hE : E ((v.forget key).forget table)) :
    R.Leads v (Records.replace naming key table schema)
      (fun _ => (· = v.replace key table schema)) E := by
  have hwrite : R.Leads ((v.forget key).forget table)
      (Operation.execute (Records.updateRecord naming table schema.text key))
      (fun _ => (· = v.replace key table schema)) E := by
    refine leads_execute hE fun hrecords hwritten => ?_
    have hrecord := R.move hwritten
    rw [hrecords] at hrecord
    exact (congrArg (StoreView.mk · _) hrecord).trans (v.replace_eq key table schema).symm
  unfold Records.replace
  refine (leads_forget key).bind ?_
  rintro _ _ rfl
  refine (leads_forget table).bind ?_
  rintro _ _ rfl
  refine hwrite.bind ?_
  rintro _ _ rfl
  refine (leads_forget key).bind ?_
  rintro _ _ rfl
  refine (leads_forget table).mono ?_ fun _ h => h
  rintro _ _ rfl
  -- what was forgotten before is forgotten once more
  rw [v.replace_eq key table schema]
  refine congrArg (StoreView.mk _) (funext fun other => ?_)
  simp only [StoreView.forget, Function.update_apply]
  split <;> simp_all

theorem leads_drop (hE : E (v.forget table)) :
    R.Leads v (Records.drop naming table) (fun _ => (· = v.drop table)) E := by
  have hwrite : R.Leads (v.forget table) (Operation.execute (Records.deleteRecord naming table))
      (fun _ => (· = v.drop table)) E := by
    refine leads_execute hE fun hrecords hwritten => ?_
    have hrecord := R.delete hwritten
    rw [hrecords] at hrecord
    exact congrArg (StoreView.mk · _) hrecord
  unfold Records.drop
  refine (leads_forget table).bind ?_
  rintro _ _ rfl
  refine hwrite.bind ?_
  rintro _ _ rfl
  refine (leads_forget table).mono ?_ fun _ h => h
  rintro _ _ rfl
  exact congrArg (StoreView.mk _) (Function.update_idem ..)

end Records

/-! ## Definitions of tables, and the end of a migration -/

theorem leads_define {sql : String} (hE : E v) (hsql : Records.Defines sql) :
    R.Leads v (Migration.define sql) (fun _ => (· = v)) E := by
  have hother : ¬ Records.Writes naming { sql } := Records.not_writes_of_defines hsql
  unfold Migration.define
  exact (leads_execute_other hE hother).still fun _ => leads_pure rfl

theorem leads_tryDefine {sql : String} (hsql : Records.Defines sql) :
    R.Leads v (Migration.tryDefine sql) (fun _ => (· = v)) E := by
  have hother : ¬ Records.Writes naming { sql } := Records.not_writes_of_defines hsql
  have hexecute : R.Leads v (Operation.ask (.execute { sql })) (fun _ => (· = v)) E := by
    rintro w rfl
    exact congrArg (StoreView.mk · _) (R.other_same hother)
  unfold Migration.tryDefine
  exact hexecute.still fun _ => leads_pure rfl

theorem leads_forM {τ : Type} {g : τ → Operation Unit} {ts : List τ}
    (h : ∀ t ∈ ts, R.Leads v (g t) (fun _ => (· = v)) E) :
    R.Leads v (ts.forM g) (fun _ => (· = v)) E := by
  induction ts with
  | nil => exact leads_pure rfl
  | cons t ts ih =>
    exact (h t List.mem_cons_self).still fun _ => ih fun u hu => h u (List.mem_cons_of_mem t hu)

theorem leads_dropIndexes (table : String) (stored : TableSchema) (dropped : List String) :
    R.Leads v ((Definition.dropIndexes naming table stored dropped).forM Migration.tryDefine)
      (fun _ => (· = v)) E :=
  leads_forM fun _ hsql => leads_tryDefine (Definition.defines_dropIndexes naming hsql)

theorem leads_finish (event : MigrationEvent) :
    R.Leads v (Migration.finish event) (fun _ => (· = v)) E := by
  unfold Migration.finish
  refine (leads_forM fun table _ => leads_ask fun _ => ⟨rfl, rfl⟩).still fun _ => ?_
  refine leads_ask fun w => ?_
  obtain ⟨hdatabase, hcaches⟩ := World.announce_same w event
  exact ⟨hdatabase, congrArg Caches.schemas hcaches⟩

/-- The record is written, and then a migration ends. -/
theorem Leads.finish {P : StoreView → Prop} {y : Operation Unit} {event : MigrationEvent}
    (h : R.Leads v y (fun _ => P) E) :
    R.Leads v (y >>= fun _ => Migration.finish event) (fun _ => P) E :=
  h.bind fun _ _ hv' => (leads_finish event).mono (fun _ _ hsame => hsame ▸ hv') fun _ h => h

/-! ## What is kept -/

section Keeping
variable {P : StoreView → Prop}

theorem Preserves.exec (h : R.Preserves P x) {w : World σ} (hw : P (R.view w)) :
    P (R.view (x.exec db w).2) := by
  have hx := h _ hw w rfl
  rcases hexec : x.exec db w with ⟨e | a, w'⟩ <;> rw [hexec] at hx <;> exact hx

theorem preserves_pure (a : α) : R.Preserves P (pure a) := fun _ hv => leads_pure hv

theorem Preserves.bind (hx : R.Preserves P x) (hf : ∀ a, R.Preserves P (f a)) :
    R.Preserves P (x >>= f) :=
  fun v hv => (hx v hv).bind fun a v' hv' => hf a v' hv'

theorem preserves_ofExcept (given : Except StoreError α) :
    R.Preserves P (Operation.ofExcept given) := by
  cases given with
  | ok a => exact preserves_pure a
  | error e => exact fun _ hv => leads_throw hv

theorem preserves_forM {τ : Type} {g : τ → Operation Unit} {ts : List τ}
    (h : ∀ t ∈ ts, R.Preserves P (g t)) : R.Preserves P (ts.forM g) := by
  induction ts with
  | nil => exact preserves_pure ()
  | cons t ts ih =>
    exact (h t List.mem_cons_self).bind fun _ => ih fun u hu => h u (List.mem_cons_of_mem t hu)

theorem preserves_prepare (request : TableRequest) : R.Preserves P (request.prepare naming) := by
  cases request with
  | installCoreTables =>
    intro v hv
    have hmetadata : ¬ Records.Writes naming { sql := Definition.createMetadataTable naming } :=
      Records.not_writes_of_defines (Definition.defines_createMetadataTable naming)
    refine (leads_fetch hv CoreTables.ping).still fun _ => ?_
    exact (leads_execute_other hv hmetadata).still fun _ => leads_pure hv
  | _ => exact preserves_pure ()

theorem preserves_request (hcall : ∀ call : MigrationCall, R.Preserves P (call.operation naming))
    (request : TableRequest) : R.Preserves P (request.operation naming) := by
  rw [TableRequest.operation_eq]
  refine (preserves_prepare request).bind fun _ => (preserves_ofExcept _).bind fun calls => ?_
  exact preserves_forM fun call _ => hcall call

end Keeping

end RecordTable

/-- What every migration keeps is kept by every run of requests, whatever fails. -/
theorem RecordTable.preserved_by_session {naming : TableNaming} {db : Database σ}
    {R : RecordTable naming db} {P : StoreView → Prop}
    (hcall : ∀ call : MigrationCall, R.Preserves P (call.operation naming))
    (requests : List TableRequest) {w : World σ} (hw : P (R.view w)) :
    P (R.view ((session naming requests).run db w).2) := by
  induction requests generalizing w with
  | nil => exact hw
  | cons request requests ih =>
    rw [session_cons, Program.run_bind, Program.run_bind]
    exact ih ((preserves_request hcall request).exec hw)

end ContentTables
