import ContentTables.Proofs.Schema.Merging
import ContentTables.Proofs.Store.Running
import ContentTables.Store.Migration
import ContentTables.Store.Rows

/-!
# Refusals

An operation is refused when it ends with a validation error. What its program may do before that
is read off the tree of its effects, so it holds for every database and everything in memory.

* `Effect.Reads`, `Program.performed` : statements that read, and what a run performs;
* `Program.OnlyReads`, `Program.NeverRefuses`, `Program.RefusesFirst` : no path writes, no path is
  refused, no path that is refused writes;
* `OnlyReads.bind`, `NeverRefuses.bind`, `RefusesFirst.bind`, `RefusesFirst.behind` and the rules
  for single steps;
* `RefusesFirst.unchanged` : what this means for a run;
* the operations on records, tables and rows, one lemma each.
-/

namespace ContentTables

variable {σ α β : Type}

/-- A statement that is sent has to be a `SELECT`; memory is free. -/
def Effect.Reads : Effect → Prop
  | .execute _ => False
  | .fetch s => "SELECT ".toList <+: s.sql.toList
  | _ => True

/-- The result is a validation error. -/
def Refused (result : Except StoreError α) : Prop := ∃ e, result = .error e ∧ e.isValidation = true

theorem not_refused_ok (a : α) : ¬ Refused (.ok a : Except StoreError α) := by
  rintro ⟨_, h, _⟩
  exact nomatch h

theorem not_refused_error {e : StoreError} (he : e.isValidation = false) :
    ¬ Refused (.error e : Except StoreError α) := by
  rintro ⟨e', h, he'⟩
  cases h
  exact absurd (he.symm.trans he') nofun

namespace Program

/-- The effects of a run, in order. -/
def performed (db : Database σ) : Program α → World σ → List Effect
  | .done _, _ => []
  | .perform e next, w => e :: (next (w.answer db e).1).performed db (w.answer db e).2

def OnlyReads : Program α → Prop
  | .done _ => True
  | .perform e next => e.Reads ∧ ∀ a, (next a).OnlyReads

def NeverRefuses : Program (Except StoreError α) → Prop
  | .done result => ¬ Refused result
  | .perform _ next => ∀ a, (next a).NeverRefuses

/-- Behind an effect that does not read there is no refusal. -/
def RefusesFirst : Program (Except StoreError α) → Prop
  | .done _ => True
  | .perform e next =>
    (e.Reads ∧ ∀ a, (next a).RefusesFirst) ∨ ∀ a, (next a).NeverRefuses

theorem NeverRefuses.refusesFirst {p : Program (Except StoreError α)} (h : p.NeverRefuses) :
    p.RefusesFirst := by
  cases p with
  | done result => exact trivial
  | perform e next => exact Or.inr h

theorem NeverRefuses.not_refused {p : Program (Except StoreError α)} (h : p.NeverRefuses)
    (db : Database σ) (w : World σ) : ¬ Refused (p.run db w).1 := by
  induction p generalizing w with
  | done result => exact h
  | perform e next ih => exact ih _ (h _) _

/-- What reading leaves as it is. -/
theorem answer_database {ρ : Type} {db : Database σ} {records : σ → ρ}
    (hrecords : ∀ state s, records (db.fetch state s).2 = records state) {e : Effect}
    (he : e.Reads) (w : World σ) : records (w.answer db e).2.database = records w.database := by
  cases e with
  | execute s => exact he.elim
  | fetch s => exact hrecords w.database s
  | _ => rfl

theorem RefusesFirst.unchanged {p : Program (Except StoreError α)} (h : p.RefusesFirst)
    (db : Database σ) (w : World σ) (hrefused : Refused (p.run db w).1) :
    (∀ e ∈ p.performed db w, e.Reads) ∧
      ∀ (ρ : Type) (records : σ → ρ), (∀ state s, records (db.fetch state s).2 = records state) →
        records (p.run db w).2.database = records w.database := by
  induction p generalizing w with
  | done result => exact ⟨nofun, fun _ _ _ => rfl⟩
  | perform e next ih =>
    rcases h with ⟨he, hnext⟩ | hnever
    · obtain ⟨hperformed, hdatabase⟩ := ih _ (hnext _) _ hrefused
      refine ⟨fun e' he' => ?_, fun ρ records hrecords => ?_⟩
      · rcases List.mem_cons.mp he' with rfl | he'
        · exact he
        · exact hperformed e' he'
      · exact (hdatabase ρ records hrecords).trans (answer_database hrecords he w)
    · exact absurd hrefused ((hnever _).not_refused db _)

end Program

/-! ## Rules -/

namespace Operation

variable {x : Operation α} {f : α → Operation β}

def OnlyReads (x : Operation α) : Prop := x.run.OnlyReads

def NeverRefuses (x : Operation α) : Prop := x.run.NeverRefuses

def RefusesFirst (x : Operation α) : Prop := x.run.RefusesFirst

theorem NeverRefuses.refusesFirst (h : x.NeverRefuses) : x.RefusesFirst :=
  Program.NeverRefuses.refusesFirst h

theorem OnlyReads.bind (hx : x.OnlyReads) (hf : ∀ a, (f a).OnlyReads) : (x >>= f).OnlyReads := by
  have hbind : ∀ p : Program (Except StoreError α), p.OnlyReads →
      (p.bind (ExceptT.bindCont f)).OnlyReads := by
    intro p
    induction p with
    | done result =>
      cases result with
      | ok a => exact fun _ => hf a
      | error e => exact fun _ => trivial
    | perform e next ih => exact fun h => ⟨h.1, fun a => ih a (h.2 a)⟩
  exact hbind x.run hx

theorem NeverRefuses.bind (hx : x.NeverRefuses) (hf : ∀ a, (f a).NeverRefuses) :
    (x >>= f).NeverRefuses := by
  have hbind : ∀ p : Program (Except StoreError α), p.NeverRefuses →
      (p.bind (ExceptT.bindCont f)).NeverRefuses := by
    intro p
    induction p with
    | done result =>
      cases result with
      | ok a => exact fun _ => hf a
      | error e =>
        intro h
        rintro ⟨e', he, he'⟩
        cases he
        exact h ⟨_, rfl, he'⟩
    | perform e next ih => exact fun h a => ih a (h a)
  exact hbind x.run hx

/-- The first part may be refused, the rest may not. -/
theorem RefusesFirst.bind (hx : x.RefusesFirst) (hf : ∀ a, (f a).NeverRefuses) :
    (x >>= f).RefusesFirst := by
  have hnever : ∀ p : Program (Except StoreError α), p.NeverRefuses →
      Program.NeverRefuses (p.bind (ExceptT.bindCont f)) :=
    fun p hp => NeverRefuses.bind (x := ExceptT.mk p) hp hf
  have hbind : ∀ p : Program (Except StoreError α), p.RefusesFirst →
      Program.RefusesFirst (p.bind (ExceptT.bindCont f)) := by
    intro p
    induction p with
    | done result =>
      cases result with
      | ok a => exact fun _ => (hf a).refusesFirst
      | error e => exact fun _ => trivial
    | perform e next ih =>
      rintro (⟨he, hnext⟩ | hnext)
      · exact Or.inl ⟨he, fun a => ih a (hnext a)⟩
      · exact Or.inr fun a => hnever _ (hnext a)
  exact hbind x.run hx

/-- The rest may be refused where the first part only reads. -/
theorem RefusesFirst.behind (hx : x.OnlyReads) (hf : ∀ a, (f a).RefusesFirst) :
    (x >>= f).RefusesFirst := by
  have hbind : ∀ p : Program (Except StoreError α), p.OnlyReads →
      Program.RefusesFirst (p.bind (ExceptT.bindCont f)) := by
    intro p
    induction p with
    | done result =>
      cases result with
      | ok a => exact fun _ => hf a
      | error e => exact fun _ => trivial
    | perform e next ih => exact fun h => Or.inl ⟨h.1, fun a => ih a (h.2 a)⟩
  exact hbind x.run hx

theorem onlyReads_pure (a : α) : (pure a : Operation α).OnlyReads := trivial

theorem onlyReads_throw (e : StoreError) : (throw e : Operation α).OnlyReads := trivial

theorem onlyReads_ofExcept (result : Except StoreError α) : (ofExcept result).OnlyReads := trivial

theorem onlyReads_ask {e : Effect} (he : e.Reads) : (ask e).OnlyReads := ⟨he, fun _ => trivial⟩

theorem neverRefuses_pure (a : α) : (pure a : Operation α).NeverRefuses := not_refused_ok a

theorem neverRefuses_throw {e : StoreError} (he : e.isValidation = false) :
    (throw e : Operation α).NeverRefuses := not_refused_error he

theorem neverRefuses_ofExcept {result : Except StoreError α} (h : ¬ Refused result) :
    (ofExcept result).NeverRefuses := h

theorem neverRefuses_ask (e : Effect) : (ask e).NeverRefuses := fun a => not_refused_ok a

theorem neverRefuses_forM {τ : Type} {f : τ → Operation Unit} {ts : List τ}
    (h : ∀ t ∈ ts, (f t).NeverRefuses) : (ts.forM f).NeverRefuses := by
  induction ts with
  | nil => exact neverRefuses_pure ()
  | cons t rest ih =>
    refine NeverRefuses.bind (h t (List.mem_cons_self ..)) fun _ => ?_
    exact ih fun u hu => h u (List.mem_cons_of_mem t hu)

/-- A refusal before the first effect is harmless. -/
theorem refusesFirst_ofExcept_bind {result : Except StoreError α}
    (h : ∀ a, result = .ok a → (f a).RefusesFirst) : (ofExcept result >>= f).RefusesFirst := by
  cases result with
  | ok a => exact h a rfl
  | error e => exact trivial

theorem isValidation_fault (fault : BackendFault) : fault.error.isValidation = false := by
  cases fault <;> rfl

theorem onlyReads_fetch {s : Statement} (hs : "SELECT ".toList <+: s.sql.toList) :
    (fetch s).OnlyReads := by
  refine OnlyReads.bind (onlyReads_ask hs) fun answer => ?_
  cases answer with
  | ok rows => exact onlyReads_pure rows
  | error fault => exact onlyReads_throw fault.error

theorem neverRefuses_fetch (s : Statement) : (fetch s).NeverRefuses := by
  refine NeverRefuses.bind (neverRefuses_ask _) fun answer => ?_
  cases answer with
  | ok rows => exact neverRefuses_pure rows
  | error fault => exact neverRefuses_throw (isValidation_fault fault)

theorem neverRefuses_execute (s : Statement) : (execute s).NeverRefuses := by
  refine NeverRefuses.bind (neverRefuses_ask _) fun answer => ?_
  cases answer with
  | ok written => exact neverRefuses_pure written
  | error fault => exact neverRefuses_throw (isValidation_fault fault)

end Operation

open Operation

/-! ## Records -/

section Records
variable (naming : TableNaming)

theorem selectSchema_reads (table : String) :
    "SELECT ".toList <+: (Records.selectSchema naming table).sql.toList := by
  have hstart : "SELECT ".toList <+: "SELECT \x60columns\x60 FROM ".toList := by decide
  unfold Records.selectSchema
  rw [String.toList_append, String.toList_append, List.append_assoc]
  exact hstart.trans (List.prefix_append _ _)

theorem not_refused_decode (record : Row) : ¬ Refused (Records.decode record) := by
  have helim : ∀ found : Option TableSchema,
      ¬ Refused (found.elim (Except.error StoreError.badForm) .ok) := by
    intro found
    cases found with
    | none => exact not_refused_error rfl
    | some schema => exact not_refused_ok schema
  unfold Records.decode
  split
  · exact helim _
  · exact not_refused_ok _
  · exact not_refused_ok _
  · exact helim _

theorem onlyReads_find? (table : String) : (Records.find? naming table).OnlyReads := by
  unfold Records.find?
  refine OnlyReads.bind (onlyReads_ask trivial) fun cached => ?_
  cases cached with
  | some schema => exact onlyReads_pure _
  | none =>
    refine OnlyReads.bind (onlyReads_ask trivial) fun generation => ?_
    refine OnlyReads.bind (onlyReads_fetch (selectSchema_reads naming table)) fun rows => ?_
    cases rows.head? with
    | none => exact onlyReads_pure _
    | some record =>
      refine OnlyReads.bind (onlyReads_ofExcept _) fun schema => ?_
      exact OnlyReads.bind (onlyReads_ask trivial) fun _ => onlyReads_pure _

theorem neverRefuses_find? (table : String) : (Records.find? naming table).NeverRefuses := by
  unfold Records.find?
  refine NeverRefuses.bind (neverRefuses_ask _) fun cached => ?_
  cases cached with
  | some schema => exact neverRefuses_pure _
  | none =>
    refine NeverRefuses.bind (neverRefuses_ask _) fun generation => ?_
    refine NeverRefuses.bind (neverRefuses_fetch _) fun rows => ?_
    cases rows.head? with
    | none => exact neverRefuses_pure _
    | some record =>
      refine NeverRefuses.bind (neverRefuses_ofExcept (not_refused_decode record)) fun schema => ?_
      exact NeverRefuses.bind (neverRefuses_ask _) fun _ => neverRefuses_pure _

theorem onlyReads_get (table : String) : (Records.get naming table).OnlyReads := by
  unfold Records.get
  refine OnlyReads.bind (onlyReads_find? naming table) fun found => ?_
  cases found with
  | some schema => exact onlyReads_pure schema
  | none => exact onlyReads_throw _

theorem neverRefuses_get (table : String) : (Records.get naming table).NeverRefuses := by
  unfold Records.get
  refine NeverRefuses.bind (neverRefuses_find? naming table) fun found => ?_
  cases found with
  | some schema => exact neverRefuses_pure schema
  | none => exact neverRefuses_throw rfl

theorem neverRefuses_put (table : String) (schema : TableSchema) :
    (Records.put naming table schema).NeverRefuses := by
  unfold Records.put
  refine NeverRefuses.bind (neverRefuses_ask _) fun _ => ?_
  exact NeverRefuses.bind (neverRefuses_execute _) fun _ => neverRefuses_ask _

theorem neverRefuses_replace (key table : String) (schema : TableSchema) :
    (Records.replace naming key table schema).NeverRefuses := by
  unfold Records.replace
  refine NeverRefuses.bind (neverRefuses_ask _) fun _ => ?_
  refine NeverRefuses.bind (neverRefuses_ask _) fun _ => ?_
  refine NeverRefuses.bind (neverRefuses_execute _) fun _ => ?_
  exact NeverRefuses.bind (neverRefuses_ask _) fun _ => neverRefuses_ask _

theorem neverRefuses_drop (table : String) : (Records.drop naming table).NeverRefuses := by
  unfold Records.drop
  refine NeverRefuses.bind (neverRefuses_ask _) fun _ => ?_
  exact NeverRefuses.bind (neverRefuses_execute _) fun _ => neverRefuses_ask _

end Records

/-! ## Tables -/

section Tables
variable (naming : TableNaming)

theorem neverRefuses_finish (event : MigrationEvent) : (Migration.finish event).NeverRefuses := by
  unfold Migration.finish
  refine NeverRefuses.bind (neverRefuses_forM fun _ _ => neverRefuses_ask _) fun _ => ?_
  exact neverRefuses_ask _

theorem neverRefuses_define (sql : String) : (Migration.define sql).NeverRefuses := by
  unfold Migration.define
  exact NeverRefuses.bind (neverRefuses_execute _) fun _ => neverRefuses_pure ()

theorem neverRefuses_tryDefine (sql : String) : (Migration.tryDefine sql).NeverRefuses := by
  unfold Migration.tryDefine
  exact NeverRefuses.bind (neverRefuses_ask _) fun _ => neverRefuses_pure ()

/-- What is behind a validation may be shown to go on as for a valid schema. -/
theorem refusesFirst_of_validate {schema : TableSchema} {x : Operation α}
    {rest : Unit → Operation α} (hx : x = ofExcept schema.validate >>= rest)
    (h : schema.fault? = none → x.RefusesFirst) : x.RefusesFirst := by
  subst hx
  cases hvalid : schema.validate with
  | error e => exact trivial
  | ok _ =>
    rw [← hvalid]
    exact h (TableSchema.validate_eq_ok_iff.mp hvalid)

theorem neverRefuses_createTable {schema : TableSchema} (h : schema.fault? = none)
    (table : String) : (Migration.createTable naming table schema).NeverRefuses := by
  unfold Migration.createTable
  rw [TableSchema.validate_eq_ok_iff.mpr h]
  refine NeverRefuses.bind (neverRefuses_ofExcept (not_refused_ok ())) fun _ => ?_
  refine NeverRefuses.bind (neverRefuses_define _) fun _ => ?_
  refine NeverRefuses.bind (neverRefuses_put naming table schema) fun _ => ?_
  exact neverRefuses_finish _

theorem refusesFirst_createTable (table : String) (schema : TableSchema) :
    (Migration.createTable naming table schema).RefusesFirst :=
  refusesFirst_of_validate rfl fun h => (neverRefuses_createTable naming h table).refusesFirst

theorem neverRefuses_applyDiff {stored : TableSchema} {diff : SchemaDiff}
    (h : (stored.merge diff).fault? = none) (table : String) :
    (Migration.applyDiff naming table stored diff).NeverRefuses := by
  unfold Migration.applyDiff
  simp only
  rw [TableSchema.validate_eq_ok_iff.mpr h]
  refine NeverRefuses.bind (neverRefuses_ofExcept (not_refused_ok ())) fun _ => ?_
  refine NeverRefuses.bind (neverRefuses_forM fun _ _ => neverRefuses_tryDefine _) fun _ => ?_
  have hrecord : (do
      Records.replace naming table table (stored.merge diff)
      Migration.finish (.altered table diff) : Operation Unit).NeverRefuses :=
    NeverRefuses.bind (neverRefuses_replace naming table table _) fun _ => neverRefuses_finish _
  split
  · exact NeverRefuses.bind (neverRefuses_define _) fun _ => hrecord
  · exact hrecord

theorem refusesFirst_applyDiff (table : String) (stored : TableSchema) (diff : SchemaDiff) :
    (Migration.applyDiff naming table stored diff).RefusesFirst :=
  refusesFirst_of_validate rfl fun h => (neverRefuses_applyDiff naming h table).refusesFirst

/-- A table that is brought to a valid schema is never refused, whatever is recorded. -/
theorem neverRefuses_reconcile {desired : TableSchema} (h : desired.fault? = none)
    (table : String) : (Migration.reconcile naming table desired).NeverRefuses := by
  unfold Migration.reconcile
  rw [TableSchema.validate_eq_ok_iff.mpr h]
  refine NeverRefuses.bind (neverRefuses_ofExcept (not_refused_ok ())) fun _ => ?_
  refine NeverRefuses.bind (neverRefuses_find? naming table) fun found => ?_
  cases found with
  | none =>
    exact NeverRefuses.bind (neverRefuses_createTable naming h table) fun _ => neverRefuses_pure _
  | some stored =>
    simp only
    split
    · exact neverRefuses_pure _
    · have hmerged := TableSchema.fault?_merge_diff h stored
      exact NeverRefuses.bind (neverRefuses_applyDiff naming hmerged table) fun _ =>
        neverRefuses_pure _

theorem refusesFirst_reconcile (table : String) (desired : TableSchema) :
    (Migration.reconcile naming table desired).RefusesFirst :=
  refusesFirst_of_validate rfl fun h => (neverRefuses_reconcile naming h table).refusesFirst

theorem refusesFirst_updateTable (table : String) (diff : SchemaDiff) :
    (Migration.updateTable naming table diff).RefusesFirst := by
  unfold Migration.updateTable
  exact RefusesFirst.behind (onlyReads_get naming table) fun stored =>
    refusesFirst_applyDiff naming table stored diff

theorem neverRefuses_renameTable (source target : String) :
    (Migration.renameTable naming source target).NeverRefuses := by
  unfold Migration.renameTable
  refine NeverRefuses.bind (neverRefuses_get naming source) fun schema => ?_
  refine NeverRefuses.bind (neverRefuses_define _) fun _ => ?_
  refine NeverRefuses.bind (neverRefuses_replace naming source target schema) fun _ => ?_
  exact neverRefuses_finish _

theorem neverRefuses_dropTable (table : String) :
    (Migration.dropTable naming table).NeverRefuses := by
  unfold Migration.dropTable
  refine NeverRefuses.bind (neverRefuses_define _) fun _ => ?_
  refine NeverRefuses.bind (neverRefuses_drop naming table) fun _ => ?_
  exact neverRefuses_finish _

end Tables

/-! ## Rows -/

section Rows
variable (naming : TableNaming)

/-- Behind the statement of a write nothing is refused. -/
theorem neverRefuses_write {s : Statement} {table : String} {f : Written → Operation β}
    (hf : ∀ written, (f written).NeverRefuses) :
    (do
      let written ← execute s
      Rows.forget table
      f written : Operation β).NeverRefuses := by
  refine NeverRefuses.bind (neverRefuses_execute s) fun written => ?_
  exact NeverRefuses.bind (neverRefuses_ask _) fun _ => hf written

theorem refusesFirst_insert (now table : String) (row : Row) :
    (Rows.insert naming now table row).RefusesFirst := by
  unfold Rows.insert
  refine RefusesFirst.behind (onlyReads_get naming table) fun schema => ?_
  refine refusesFirst_ofExcept_bind fun prepared _ => NeverRefuses.refusesFirst ?_
  refine neverRefuses_write fun written => ?_
  split
  · exact neverRefuses_pure _
  · exact neverRefuses_pure _

theorem refusesFirst_update (table : String) (row : Row) (condition : Condition) :
    (Rows.update naming table row condition).RefusesFirst := by
  unfold Rows.update
  refine RefusesFirst.behind (onlyReads_get naming table) fun schema => ?_
  refine refusesFirst_ofExcept_bind fun prepared _ => ?_
  refine refusesFirst_ofExcept_bind fun statement _ => NeverRefuses.refusesFirst ?_
  exact neverRefuses_write fun written => neverRefuses_pure _

theorem neverRefuses_delete (table : String) (condition : Condition)
    (offset limit : Option UInt64) :
    (Rows.delete naming table condition offset limit).NeverRefuses := by
  unfold Rows.delete
  exact neverRefuses_write fun written => neverRefuses_pure _

theorem neverRefuses_rows (q : SelectQuery) : (Rows.get naming q).NeverRefuses := by
  unfold Rows.get
  refine NeverRefuses.bind (neverRefuses_fetch _) fun rows => ?_
  split
  · exact neverRefuses_pure _
  · split
    · exact neverRefuses_pure _
    · exact NeverRefuses.bind (neverRefuses_get naming q.table) fun _ => neverRefuses_pure _

theorem refusesFirst_join (q : JoinQuery) : (Rows.join naming q).RefusesFirst := by
  unfold Rows.join
  exact refusesFirst_ofExcept_bind fun s _ => (neverRefuses_fetch s).refusesFirst

end Rows

end ContentTables
