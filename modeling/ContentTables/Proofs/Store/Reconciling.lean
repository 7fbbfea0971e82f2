import ContentTables.Proofs.Store.Migrating
import ContentTables.Proofs.Store.Refusals

/-!
# Reconciliation

Where no statement fails, a table is brought to any desired schema that is valid, whatever its
record says, and bringing it there again does nothing. In which order the columns are desired makes
no difference.

* `Program.performed_bind`, `Operation.mem_performed_bind`, `Operation.reads_bind` : what operations
  perform one after the other;
* `TableSchema.get?_of_perm`, `validate_of_perm`, `Stable.of_perm`, `Records.Holds.of_perm` : a
  schema with its columns in another order;
* `reads_reconcile` : where the record has the desired content, nothing is written;
* `reconcile_converges` : the first reconciliation and all later ones.
-/

namespace ContentTables

variable {σ α β : Type} {db : Database σ}

/-! ## What is performed -/

namespace Program

theorem performed_bind (p : Program α) (f : α → Program β) (w : World σ) :
    (p.bind f).performed db w =
      p.performed db w ++ (f (p.run db w).1).performed db (p.run db w).2 := by
  induction p generalizing w with
  | done a => rfl
  | perform e next ih => simp only [bind, performed, run, ih, List.cons_append]

theorem OnlyReads.reads {p : Program α} (h : p.OnlyReads) (w : World σ) :
    ∀ e ∈ p.performed db w, e.Reads := by
  induction p generalizing w with
  | done a => exact nofun
  | perform e next ih => exact List.forall_mem_cons.mpr ⟨h.1, ih _ (h.2 _) _⟩

end Program

/-- The rest is reached with the result of the first part only. -/
theorem Operation.mem_performed_bind {x : Operation α} {f : α → Operation β} {w : World σ}
    {e : Effect} (he : e ∈ (x >>= f).run.performed db w) : e ∈ x.run.performed db w ∨
      ∃ a w', x.exec db w = (.ok a, w') ∧ e ∈ (f a).run.performed db w' := by
  change e ∈ (Program.bind x.run (ExceptT.bindCont f)).performed db w at he
  rw [Program.performed_bind, List.mem_append] at he
  refine he.imp_right fun he => ?_
  rcases hexec : x.exec db w with ⟨_ | a, w'⟩ <;>
    rw [show x.run.run db w = _ from hexec] at he
  · exact absurd he List.not_mem_nil
  · exact ⟨a, w', rfl, he⟩

theorem Operation.reads_bind {x : Operation α} {f : α → Operation β} {w : World σ}
    (hx : x.OnlyReads)
    (hf : ∀ a w', x.exec db w = (.ok a, w') → ∀ e ∈ (f a).run.performed db w', e.Reads) :
    ∀ e ∈ (x >>= f).run.performed db w, e.Reads := by
  intro e he
  rcases Operation.mem_performed_bind he with he | ⟨a, w', hexec, he⟩
  · exact Program.OnlyReads.reads hx w e he
  · exact hf a w' hexec e he

/-! ## Columns in another order -/

namespace TableSchema

variable {s t : TableSchema} (h : s.entries.Perm t.entries)
include h

theorem get?_of_perm (name : String) : s.get? name = t.get? name :=
  Option.ext fun _ =>
    OrderedMap.get?_eq_some_iff.trans (h.mem_iff.trans OrderedMap.get?_eq_some_iff.symm)

theorem validate_of_perm (ht : t.validate = .ok ()) : s.validate = .ok () := by
  rw [validate_eq_ok_iff] at ht ⊢
  exact fault?_of_columns ht fun name c hget => ⟨c, get?_of_perm h name ▸ hget, rfl, rfl⟩

theorem Stable.of_perm (ht : t.Stable) : s.Stable :=
  stable_iff.mpr fun name c hget => stable_iff.mp ht name c (get?_of_perm h name ▸ hget)

theorem sameContent_of_perm {stored : TableSchema} (hsame : stored.sameContent t = true) :
    stored.sameContent s = true :=
  sameContent_iff.mpr fun name => get?_of_perm h name ▸ sameContent_iff.mp hsame name

end TableSchema

open Records RecordTable

namespace Records.Holds

variable {record : Option Row} {s t : TableSchema}

theorem of_perm (h : s.entries.Perm t.entries) (hholds : Holds record t) : Holds record s := by
  obtain ⟨row, stored, hrow, hdecoded, hsame⟩ := hholds
  exact ⟨row, stored, hrow, hdecoded, TableSchema.sameContent_of_perm h hsame⟩

theorem readable (h : Holds record s) : Readable record := h.written.readable

end Records.Holds

/-! ## Reconciliations -/

variable {naming : TableNaming} {R : RecordTable naming db} {w : World σ} {table : String}
  {desired : TableSchema}

theorem reads_reconcile (hw : R.Coherent w) (hholds : Holds (R.recorded w table) desired) :
    ∀ e ∈ (Migration.reconcile naming table desired).run.performed db w, e.Reads := by
  unfold Migration.reconcile
  refine Operation.reads_bind (Operation.onlyReads_ofExcept _) fun _ w' hvalidated => ?_
  rw [Operation.exec_ofExcept] at hvalidated
  obtain rfl := (Prod.mk.inj hvalidated).2
  refine Operation.reads_bind (onlyReads_find? naming table) fun found w' hexec => ?_
  have hfind : R.Outcome True (R.recorded w) _ ((find? naming table).exec db w) :=
    moves_find? R.failsOnly_true (Or.inl trivial) w hw rfl
  rw [hexec] at hfind
  obtain ⟨_, _, hfound⟩ := hfind
  cases found with
  | none =>
    obtain ⟨row, _, hrow, _⟩ := hholds
    exact nomatch hrow.symm.trans hfound
  | some stored =>
    obtain ⟨row, hrow, hdecoded⟩ := hfound
    have hempty := TableSchema.isEmpty_diff_iff.mpr ((holds_iff hrow hdecoded).mp hholds)
    show ∀ e ∈ (if (stored.diff desired).isEmpty then pure .unchanged else _ :
      Operation ReconcileOutcome).run.performed db w', e.Reads
    rw [if_pos hempty]
    exact nofun

/-- What is reported of the record that was there. -/
structure Reports (outcome : ReconcileOutcome) (record : Option Row) (desired : TableSchema) :
    Prop where
  created : outcome = .created ↔ record = none
  altered : outcome = .altered ↔ record ≠ none ∧ ¬ Holds record desired
  unchanged : outcome = .unchanged ↔ Holds record desired

theorem reconcile_reports (hfree : R.FailsOnly False) (hw : R.Coherent w)
    (hreadable : Readable (R.recorded w table)) (hvalid : desired.validate = .ok ())
    (hstable : desired.Stable) :
    ∃ outcome w', (Migration.reconcile naming table desired).exec db w = (.ok outcome, w') ∧
      Reports outcome (R.recorded w table) desired ∧ R.Coherent w' ∧
      ∃ record, Holds record desired ∧
        R.recorded w' = Function.update (R.recorded w) table record := by
  have hmoves := moves_reconcile hfree hstable (Or.inr hvalid) (Or.inr hreadable)
  obtain ⟨outcome, w', hexec, hcoherent, hrecord, hcreated, hunchanged⟩ := hmoves.succeeds hw
  refine ⟨outcome, w', hexec, ⟨hcreated, ?_, hunchanged⟩, hcoherent, hrecord⟩
  rw [← not_congr hunchanged, ne_eq, ← hcreated]
  cases outcome <;> simp

/-- The table is brought to the desired schema. As long as its record is not written, and memory is
coherent, bringing it there again changes nothing, in whichever order the columns are desired. -/
theorem reconcile_converges {σ : Type} {naming : TableNaming} {db : Database σ}
    (R : RecordTable naming db) (hfree : R.FailsOnly False) (w : World σ) (hw : R.Coherent w)
    (table : String) (hreadable : Readable (R.recorded w table)) (desired : TableSchema)
    (hvalid : desired.validate = .ok ()) (hstable : desired.Stable) :
    ∃ outcome w', (Migration.reconcile naming table desired).exec db w = (.ok outcome, w') ∧
      Reports outcome (R.recorded w table) desired ∧ R.Coherent w' ∧
      Holds (R.recorded w' table) desired ∧
      (∀ other, other ≠ table → R.recorded w' other = R.recorded w other) ∧
      ∀ later, R.Coherent later → R.recorded later table = R.recorded w' table →
        ∀ reordered : TableSchema, reordered.entries.Perm desired.entries →
          ((Migration.reconcile naming table reordered).exec db later).1 = .ok .unchanged ∧
            ∀ e ∈ (Migration.reconcile naming table reordered).run.performed db later, e.Reads := by
  obtain ⟨outcome, w', hexec, hreports, hcoherent, record, hholds, hrecorded⟩ :=
    reconcile_reports hfree hw hreadable hvalid hstable
  have hthere : R.recorded w' table = record := by rw [hrecorded, Function.update_self]
  refine ⟨outcome, w', hexec, hreports, hcoherent, hthere ▸ hholds, fun other hother => ?_,
    fun later hlater hsame reordered hperm => ?_⟩
  · rw [hrecorded, Function.update_of_ne hother]
  · have hstill : Holds (R.recorded later table) reordered :=
      ((hsame.trans hthere) ▸ hholds : Holds (R.recorded later table) desired).of_perm hperm
    refine ⟨?_, reads_reconcile hlater hstill⟩
    obtain ⟨again, later', hexec', hreports', _⟩ := reconcile_reports hfree hlater
      hstill.readable (TableSchema.validate_of_perm hperm hvalid)
      (TableSchema.Stable.of_perm hperm hstable)
    rw [hexec', hreports'.unchanged.mpr hstill]

/-- The column `a` behind another one. -/
def widerColumns : List (String × Column) := [("b", { kind := .bool }), ("a", { kind := .int })]

/-- A table with the column `a` only gets the other one, and has both then, in whichever order. -/
theorem reconcile_converges_wider :
    ∃ w', (Migration.reconcile {} "t" (.ofList widerColumns)).exec (scriptedUnder {} false)
        (oneRecord (encode numbersTable)) = (.ok .altered, w') ∧
      ((Migration.reconcile {} "t" (.ofList widerColumns.reverse)).exec (scriptedUnder {} false)
        w').1 = .ok .unchanged := by
  have hthere := recorded_oneRecord (encode numbersTable)
  have hdecoded := decode_encode_of_stable stable_numbersTable
  have hreadable : Readable (some (encode numbersTable)) := by
    rintro row ⟨⟩
    exact ⟨_, hdecoded⟩
  have hwider : TableSchema.Stable (.ofList widerColumns) := by
    refine TableSchema.stable_ofList fun e he => ?_
    rcases List.mem_pair.mp he with rfl | rfl <;> rfl
  obtain ⟨outcome, w', hexec, hreports, hcoherent, _, _, hlater⟩ :=
    reconcile_converges (scriptedRecords {} false) (scripted_failsOnly {})
      (oneRecord (encode numbersTable)) (coherent_oneRecord _) "t" (hthere ▸ hreadable)
      (.ofList widerColumns) rfl hwider
  have hother : ¬ Holds (some (encode numbersTable)) (.ofList widerColumns) :=
    fun hholds => nomatch (holds_iff rfl hdecoded).mp hholds
  rw [hthere] at hreports
  obtain rfl := hreports.altered.mpr ⟨nofun, hother⟩
  exact ⟨w', hexec, (hlater w' hcoherent rfl _ (List.reverse_perm widerColumns)).1⟩

end ContentTables
