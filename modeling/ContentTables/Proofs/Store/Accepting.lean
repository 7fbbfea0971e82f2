import ContentTables.Proofs.Store.Refusals

/-!
# A database that accepts everything

* `Database.accepting` : every write succeeds and is counted, every read gives the same rows;
* `Operation.Succeeds`, `Operation.Refuses` : how an operation ends there, and how many writes it
  makes at least;
* the rules for parts, and the operations on records and tables. Those on valid schemas succeed,
  those on other schemas are refused.
-/

namespace ContentTables

variable {α β : Type}

def Database.accepting (rows : List Row) : Database Nat where
  execute n _ := (.ok default, n + 1)
  fetch n _ := (.ok rows, n)

namespace Operation

variable {rows : List Row} {k l : Nat} {w : World Nat}

def Succeeds (rows : List Row) (k : Nat) (x : Operation α) (w : World Nat) : Prop :=
  (∃ a, (x.exec (.accepting rows) w).1 = .ok a) ∧
    w.database + k ≤ (x.exec (.accepting rows) w).2.database

def Refuses (rows : List Row) (k : Nat) (x : Operation α) (w : World Nat) : Prop :=
  Refused (x.exec (.accepting rows) w).1 ∧
    w.database + k ≤ (x.exec (.accepting rows) w).2.database

/-! ## Rules -/

section Rules
variable {x : Operation α} {f : α → Operation β}

theorem Succeeds.mono (h : x.Succeeds rows k w) (hl : l ≤ k) : x.Succeeds rows l w :=
  ⟨h.1, Nat.le_trans (Nat.add_le_add_left hl _) h.2⟩

theorem Succeeds.bind (hx : x.Succeeds rows k w) (hf : ∀ a w', (f a).Succeeds rows l w') :
    (x >>= f).Succeeds rows (k + l) w := by
  obtain ⟨⟨a, ha⟩, hk⟩ := hx
  obtain ⟨hb, hl⟩ := hf a (x.exec (.accepting rows) w).2
  have hrun : x.exec (.accepting rows) w = (.ok a, (x.exec (.accepting rows) w).2) :=
    Prod.ext ha rfl
  unfold Succeeds
  rw [exec_bind_ok _ hrun]
  exact ⟨hb, by omega⟩

theorem Succeeds.bind_refuses (hx : x.Succeeds rows k w) (hf : ∀ a w', (f a).Refuses rows l w') :
    (x >>= f).Refuses rows (k + l) w := by
  obtain ⟨⟨a, ha⟩, hk⟩ := hx
  obtain ⟨hb, hl⟩ := hf a (x.exec (.accepting rows) w).2
  have hrun : x.exec (.accepting rows) w = (.ok a, (x.exec (.accepting rows) w).2) :=
    Prod.ext ha rfl
  unfold Refuses
  rw [exec_bind_ok _ hrun]
  exact ⟨hb, by omega⟩

theorem Refuses.bind (hx : x.Refuses rows k w) : (x >>= f).Refuses rows k w := by
  obtain ⟨⟨e, he, hvalidation⟩, hk⟩ := hx
  unfold Refuses
  rw [exec_bind_error _ (Prod.ext he rfl)]
  exact ⟨⟨e, rfl, hvalidation⟩, hk⟩

theorem succeeds_pure (a : α) : (pure a : Operation α).Succeeds rows 0 w :=
  ⟨⟨a, rfl⟩, Nat.le_refl _⟩

theorem refuses_throw {e : StoreError} (he : e.isValidation = true) :
    (throw e : Operation α).Refuses rows 0 w :=
  ⟨⟨e, rfl, he⟩, Nat.le_refl _⟩

theorem succeeds_ask (e : Effect) : (ask e).Succeeds rows 0 w := by
  refine ⟨⟨_, rfl⟩, ?_⟩
  cases e with
  | execute s => exact Nat.le_succ _
  | _ => exact Nat.le_refl _

theorem succeeds_execute (s : Statement) : (execute s).Succeeds rows 1 w :=
  ⟨⟨default, rfl⟩, Nat.le_refl _⟩

variable {τ : Type} {g : τ → Operation Unit} {ts : List τ}

theorem succeeds_forM (h : ∀ t ∈ ts, ∀ w, (g t).Succeeds rows 0 w) :
    (ts.forM g).Succeeds rows 0 w := by
  induction ts generalizing w with
  | nil => exact succeeds_pure ()
  | cons t rest ih =>
    have hrest : ∀ w, (rest.forM g).Succeeds rows 0 w :=
      fun w => ih fun u hu => h u (List.mem_cons_of_mem t hu)
    exact (h t (List.mem_cons_self ..) w).bind fun _ => hrest

/-- One of them writes. -/
theorem succeeds_forM_writing (h : ∀ t ∈ ts, ∀ w, (g t).Succeeds rows 0 w)
    (hwrites : ∃ t ∈ ts, ∀ w, (g t).Succeeds rows 1 w) : (ts.forM g).Succeeds rows 1 w := by
  induction ts generalizing w with
  | nil => exact absurd hwrites nofun
  | cons t rest ih =>
    have hrest : ∀ u ∈ rest, ∀ w, (g u).Succeeds rows 0 w :=
      fun u hu => h u (List.mem_cons_of_mem t hu)
    obtain ⟨u, hu, hwriting⟩ := hwrites
    rcases List.mem_cons.mp hu with rfl | hu
    · exact (hwriting w).bind fun _ w' => succeeds_forM hrest
    · have hlater : ∀ w, (rest.forM g).Succeeds rows 1 w :=
        fun w => ih hrest ⟨u, hu, hwriting⟩
      exact (h t (List.mem_cons_self ..) w).bind fun _ => hlater

/-- One of them is refused, and all before it succeed or are refused themselves. -/
theorem refuses_forM (h : ∀ t ∈ ts, ∀ w, (g t).Succeeds rows 0 w ∨ (g t).Refuses rows 0 w)
    (hrefuses : ∃ t ∈ ts, ∀ w, (g t).Refuses rows 0 w) : (ts.forM g).Refuses rows 0 w := by
  induction ts generalizing w with
  | nil => exact absurd hrefuses nofun
  | cons t rest ih =>
    obtain ⟨u, hu, hrefused⟩ := hrefuses
    rcases List.mem_cons.mp hu with rfl | hu
    · exact (hrefused w).bind
    · rcases h t (List.mem_cons_self ..) w with hsucceeds | hrefuses
      · refine Succeeds.bind_refuses (k := 0) (l := 0) hsucceeds fun _ w' => ?_
        exact ih (fun v hv => h v (List.mem_cons_of_mem t hv)) ⟨u, hu, hrefused⟩
      · exact hrefuses.bind

end Rules

/-! ## Records and tables -/

section Tables
variable {naming : TableNaming} {table : String} {schema : TableSchema}

theorem succeeds_put : (Records.put naming table schema).Succeeds rows 1 w := by
  unfold Records.put
  refine Succeeds.bind (k := 0) (l := 1) (succeeds_ask _) fun _ w => ?_
  exact Succeeds.bind (k := 1) (l := 0) (succeeds_execute _) fun _ w => succeeds_ask _

theorem succeeds_replace (key : String) :
    (Records.replace naming key table schema).Succeeds rows 1 w := by
  unfold Records.replace
  refine Succeeds.bind (k := 0) (l := 1) (succeeds_ask _) fun _ w => ?_
  refine Succeeds.bind (k := 0) (l := 1) (succeeds_ask _) fun _ w => ?_
  refine Succeeds.bind (k := 1) (l := 0) (succeeds_execute _) fun _ w => ?_
  exact Succeeds.bind (k := 0) (l := 0) (succeeds_ask _) fun _ w => succeeds_ask _

theorem succeeds_drop : (Records.drop naming table).Succeeds rows 1 w := by
  unfold Records.drop
  refine Succeeds.bind (k := 0) (l := 1) (succeeds_ask _) fun _ w => ?_
  exact Succeeds.bind (k := 1) (l := 0) (succeeds_execute _) fun _ w => succeeds_ask _

theorem succeeds_finish (event : MigrationEvent) :
    (Migration.finish event).Succeeds rows 0 w := by
  unfold Migration.finish
  refine Succeeds.bind (k := 0) (l := 0) (succeeds_forM fun _ _ w => succeeds_ask _) fun _ w => ?_
  exact succeeds_ask _

theorem succeeds_define (sql : String) : (Migration.define sql).Succeeds rows 1 w := by
  unfold Migration.define
  exact Succeeds.bind (k := 1) (l := 0) (succeeds_execute _) fun _ w => succeeds_pure ()

theorem succeeds_tryDefine (sql : String) : (Migration.tryDefine sql).Succeeds rows 0 w := by
  unfold Migration.tryDefine
  exact Succeeds.bind (k := 0) (l := 0) (succeeds_ask _) fun _ w => succeeds_pure ()

theorem succeeds_validate (h : schema.fault? = none) :
    (ofExcept schema.validate).Succeeds rows 0 w := by
  rw [TableSchema.validate_eq_ok_iff.mpr h]
  exact succeeds_pure ()

theorem refuses_validate (h : schema.fault? ≠ none) :
    (ofExcept schema.validate).Refuses rows 0 w := by
  unfold TableSchema.validate
  cases hfault : schema.fault? with
  | none => exact absurd hfault h
  | some fault => exact refuses_throw rfl

theorem succeeds_createTable (h : schema.fault? = none) :
    (Migration.createTable naming table schema).Succeeds rows 2 w := by
  unfold Migration.createTable
  refine Succeeds.bind (k := 0) (l := 2) (succeeds_validate h) fun _ w => ?_
  refine Succeeds.bind (k := 1) (l := 1) (succeeds_define _) fun _ w => ?_
  exact Succeeds.bind (k := 1) (l := 0) succeeds_put fun _ w => succeeds_finish _

theorem refuses_createTable (h : schema.fault? ≠ none) :
    (Migration.createTable naming table schema).Refuses rows 0 w := by
  unfold Migration.createTable
  exact (refuses_validate h).bind

theorem succeeds_dropTable : (Migration.dropTable naming table).Succeeds rows 2 w := by
  unfold Migration.dropTable
  refine Succeeds.bind (k := 1) (l := 1) (succeeds_define _) fun _ w => ?_
  exact Succeeds.bind (k := 1) (l := 0) succeeds_drop fun _ w => succeeds_finish _

theorem succeeds_applyDiff {stored : TableSchema} {diff : SchemaDiff}
    (h : (stored.merge diff).fault? = none) :
    (Migration.applyDiff naming table stored diff).Succeeds rows 1 w := by
  unfold Migration.applyDiff
  refine Succeeds.bind (k := 0) (l := 1) (succeeds_validate h) fun _ w => ?_
  have hindexes : ∀ sql ∈ Definition.dropIndexes naming table stored diff.dropped, ∀ w,
      (Migration.tryDefine sql).Succeeds rows 0 w := fun sql _ w => succeeds_tryDefine sql
  refine Succeeds.bind (k := 0) (l := 1) (succeeds_forM hindexes) fun _ w => ?_
  have hrecord : ∀ w, (do
      Records.replace naming table table (stored.merge diff)
      Migration.finish (.altered table diff) : Operation Unit).Succeeds rows 1 w := fun w =>
    Succeeds.bind (k := 1) (l := 0) (succeeds_replace table) fun _ w => succeeds_finish _
  split
  · exact (Succeeds.bind (k := 1) (l := 1) (succeeds_define _) fun _ => hrecord).mono (by omega)
  · exact hrecord w

theorem refuses_reconcile (h : schema.fault? ≠ none) :
    (Migration.reconcile naming table schema).Refuses rows 0 w := by
  unfold Migration.reconcile
  exact (refuses_validate h).bind

/-- With no record in memory or in the database the table is created. -/
theorem succeeds_reconcile_cold (h : schema.fault? = none) (n : Nat) :
    (Migration.reconcile naming table schema).Succeeds [] 2 (coldWorld n) := by
  unfold Migration.reconcile
  rw [TableSchema.validate_eq_ok_iff.mpr h]
  have hfind : (Records.find? naming table).exec (.accepting []) (coldWorld n) =
      (.ok none, coldWorld n) := rfl
  have hcreated : (do
      Migration.createTable naming table schema
      pure .created : Operation ReconcileOutcome).Succeeds [] 2 (coldWorld n) :=
    Succeeds.bind (k := 2) (l := 0) (succeeds_createTable h) fun _ w => succeeds_pure _
  unfold Succeeds
  rw [exec_bind_ok _ (exec_ofExcept ..), exec_bind_ok _ hfind]
  exact hcreated

section Reading
variable (naming table)
variable (hrows : ∀ record ∈ rows.head?, ∃ recorded, Records.decode record = .ok recorded)
include hrows

/-- The schema is in memory or in the rows; there is none only if there are no rows. -/
theorem exec_find?_accepting (w : World Nat) :
    ∃ found w', (Records.find? naming table).exec (.accepting rows) w = (.ok found, w') ∧
      (rows ≠ [] → found.isSome) ∧ w'.database = w.database := by
  unfold Records.find?
  rw [exec_ask_bind]
  have hlookup : (w.answer (.accepting rows) (.cachedSchema table)).2 = w := rfl
  rw [hlookup]
  cases (w.answer (.accepting rows) (.cachedSchema table)).1 with
  | some schema => exact ⟨_, _, rfl, fun _ => rfl, rfl⟩
  | none =>
    have hfetch : (fetch (Records.selectSchema naming table)).exec (.accepting rows) w =
        (.ok rows, w) := rfl
    have hgeneration : (w.answer (.accepting rows) .schemaGeneration).2 = w := rfl
    simp only
    rw [exec_ask_bind, hgeneration, exec_bind_ok _ hfetch]
    cases hhead : rows.head? with
    | none => exact ⟨_, _, rfl, fun h => absurd (List.head?_eq_none_iff.mp hhead) h, rfl⟩
    | some record =>
      obtain ⟨recorded, hdecode⟩ := hrows record hhead
      simp only
      rw [hdecode]
      exact ⟨_, _, rfl, fun _ => rfl, rfl⟩

theorem succeeds_find? : (Records.find? naming table).Succeeds rows 0 w := by
  obtain ⟨found, w', hfind, _, hw'⟩ := exec_find?_accepting naming table hrows w
  unfold Succeeds
  rw [hfind]
  exact ⟨⟨found, rfl⟩, Nat.le_of_eq hw'.symm⟩

theorem succeeds_reconcile (h : schema.fault? = none) :
    (Migration.reconcile naming table schema).Succeeds rows 0 w := by
  unfold Migration.reconcile
  refine Succeeds.bind (k := 0) (l := 0) (succeeds_validate h) fun _ w => ?_
  refine Succeeds.bind (k := 0) (l := 0) (succeeds_find? naming table hrows) fun found w => ?_
  cases found with
  | none =>
    refine Succeeds.mono (k := 2) ?_ (Nat.zero_le 2)
    exact Succeeds.bind (k := 2) (l := 0) (succeeds_createTable h) fun _ w => succeeds_pure _
  | some stored =>
    simp only
    split
    · exact succeeds_pure _
    · have hmerged := TableSchema.fault?_merge_diff h stored
      refine Succeeds.mono (k := 1) ?_ (Nat.zero_le 1)
      exact Succeeds.bind (k := 1) (l := 0) (succeeds_applyDiff hmerged) fun _ w => succeeds_pure _

theorem succeeds_get (hsome : rows ≠ []) : (Records.get naming table).Succeeds rows 0 w := by
  obtain ⟨found, w', hfind, hfound, hw'⟩ := exec_find?_accepting naming table hrows w
  unfold Records.get Succeeds
  rw [exec_bind_ok _ hfind]
  cases found with
  | none => exact absurd (hfound hsome) nofun
  | some schema => exact ⟨⟨schema, rfl⟩, Nat.le_of_eq hw'.symm⟩

theorem succeeds_renameTable (hsome : rows ≠ []) (target : String) :
    (Migration.renameTable naming table target).Succeeds rows 2 w := by
  unfold Migration.renameTable
  refine Succeeds.bind (k := 0) (l := 2) (succeeds_get naming table hrows hsome) fun stored w => ?_
  refine Succeeds.bind (k := 1) (l := 1) (succeeds_define _) fun _ w => ?_
  exact Succeeds.bind (k := 1) (l := 0) (succeeds_replace _) fun _ w => succeeds_finish _

end Reading

end Tables

end Operation

end ContentTables
