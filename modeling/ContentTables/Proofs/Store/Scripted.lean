import ContentTables.Proofs.Store.RecordTable
import ContentTables.Script.Backend

/-!
# The scripted database keeps the records

* `scriptedUnder` : the scripted database under one naming, with the pending failures or without;
* `Backend.execute_cases`, `Backend.write_insert`, `Backend.write_update`, `Backend.write_delete`,
  `Backend.write_other` : what a statement does to its records;
* `Backend.write_error` : what is written fails only on a key that is there;
* `scriptedRecords`, `scripted_failsOnly` : so it keeps the records, and without pending failures nothing
  else fails.
-/

namespace ContentTables

open Function (update)

open Records (rowOf Writes prefix_of_append ne_of_starts insertRecord_starts updateRecord_starts
  deleteRecord_starts)

/-- Every pending failure is dropped unless they count. -/
def Backend.under (naming : TableNaming) (failing : Bool) (b : Backend) : Backend :=
  { b with naming, failures := if failing then b.failures else [] }

def scriptedUnder (naming : TableNaming) (failing : Bool) : Database Backend where
  execute b s := (b.under naming failing).execute s
  fetch b s := (b.under naming failing).fetch s

namespace Backend

variable {b : Backend}

theorem receive_same (b : Backend) (s : Statement) :
    (b.receive s).2.records = b.records ∧ (b.receive s).2.naming = b.naming := by
  unfold receive
  simp only
  split
  · exact ⟨rfl, rfl⟩
  · exact ⟨rfl, rfl⟩

theorem pending_of_receive {s : Statement} {fault : BackendFault}
    (h : (b.receive s).1 = some fault) : b.failures ≠ [] := by
  intro hnone
  unfold receive at h
  simp only [hnone, List.find?_nil] at h
  exact nomatch h

theorem fetch_pending {s : Statement} {fault : BackendFault}
    (h : (b.fetch s).1 = .error fault) : b.failures ≠ [] := by
  unfold fetch at h
  rcases hreceived : b.receive s with ⟨_ | fault', b'⟩ <;> rw [hreceived] at h
  · exact nomatch h
  · exact pending_of_receive (congrArg Prod.fst hreceived)

/-- A statement fails when it is received, or it is written. -/
theorem execute_cases (b : Backend) (s : Statement) : ∃ b' : Backend, b'.records = b.records ∧
    b'.naming = b.naming ∧
      ((∃ fault, b.failures ≠ [] ∧ b.execute s = (.error fault, b')) ∨ b.execute s = b'.write s) := by
  obtain ⟨hrecords, hnaming⟩ := receive_same b s
  refine ⟨(b.receive s).2, hrecords, hnaming, ?_⟩
  unfold execute
  rcases hreceived : b.receive s with ⟨_ | fault, b'⟩
  · exact Or.inr rfl
  · exact Or.inl ⟨fault, pending_of_receive (congrArg Prod.fst hreceived), rfl⟩

section Write
variable {naming : TableNaming} (hnaming : b.naming = naming)
include hnaming

theorem write_insert (table text : String) :
    b.write (Records.insertRecord naming table text) = b.insertRecord table (.str text) := by
  subst hnaming
  exact if_pos rfl

theorem write_update (table text key : String) :
    b.write (Records.updateRecord naming table text key) =
      b.updateRecord table (.str text) key := by
  subst hnaming
  have hinsert := ne_of_starts (updateRecord_starts b.naming table text key)
    (insertRecord_starts b.naming "" "") (by decide)
  exact (if_neg hinsert).trans (if_pos rfl)

theorem write_delete (table : String) :
    b.write (Records.deleteRecord naming table) = b.deleteRecord table := by
  subst hnaming
  have hinsert := ne_of_starts (deleteRecord_starts b.naming table)
    (insertRecord_starts b.naming "" "") (by decide)
  have hupdate := ne_of_starts (deleteRecord_starts b.naming table)
    (updateRecord_starts b.naming "" "" "") (by decide)
  exact (if_neg hinsert).trans ((if_neg hupdate).trans (if_pos rfl))

theorem write_other {s : Statement} (hs : ¬ Writes naming s) : b.write s = b.writeOther s := by
  subst hnaming
  unfold Writes at hs
  simp only [not_or] at hs
  exact (if_neg hs.1).trans ((if_neg hs.2.1).trans (if_neg hs.2.2))

end Write

theorem writeOther_same (b : Backend) (s : Statement) :
    (b.writeOther s).2.records = b.records := by
  unfold writeOther
  simp only
  split <;> rfl

theorem fetch_same (b : Backend) (s : Statement) : (b.fetch s).2.records = b.records := by
  obtain ⟨hrecords, _⟩ := receive_same b s
  have hread : ∀ b' : Backend, (b'.read s).2.records = b'.records := by
    intro b'
    unfold read tableRows readOther
    split
    · rfl
    · split
      · rfl
      · split
        · split <;> rfl
        · split <;> rfl
  unfold fetch
  rcases hreceived : b.receive s with ⟨_ | fault, b'⟩ <;> rw [hreceived] at hrecords
  · exact (hread b').trans hrecords
  · exact hrecords

theorem fetch_selectSchema {naming : TableNaming} (hnaming : b.naming = naming) {table : String}
    {rows : List Row} (h : (b.fetch (Records.selectSchema naming table)).1 = .ok rows) :
    rows.head? = b.records.get? table := by
  subst hnaming
  obtain ⟨hrecords, hsame⟩ := receive_same b (Records.selectSchema b.naming table)
  have hping : (Records.selectSchema b.naming table).sql ≠ "SELECT 1" := by
    have hstart : "SELECT `".toList <+: (Records.selectSchema b.naming table).sql.toList :=
      prefix_of_append (prefix_of_append (by decide))
    exact ne_of_starts hstart (v := "SELECT 1") (List.prefix_refl _) (by decide)
  have hread : ∀ b' : Backend, b'.naming = b.naming →
      b'.read (Records.selectSchema b.naming table) = ((b'.records.get? table).toList, b') := by
    intro b' hb'
    refine (if_neg hping).trans (if_pos ?_)
    rw [hb']
    rfl
  unfold fetch at h
  rcases hreceived : b.receive (Records.selectSchema b.naming table) with ⟨_ | fault, b'⟩ <;>
    rw [hreceived] at hrecords hsame h
  · simp only [hread b' hsame] at h
    rw [← Except.ok.inj h, ← hrecords]
    cases b'.records.get? table <;> rfl
  · exact nomatch h

end Backend

/-! ## The laws -/

namespace Backend

variable {b : Backend} {naming : TableNaming}

theorem get?_recordOf (b : Backend) (table text : String) :
    (b.records.insert table (recordOf (.str text))).get? =
      update b.records.get? table (some (rowOf text)) := by
  funext key
  rw [OrderedMap.get?_insert, Function.update_apply]
  rfl

theorem get?_without (b : Backend) (key : String) :
    (b.records.erase key).get? = update b.records.get? key none := by
  funext table
  rw [OrderedMap.get?_erase, Function.update_apply]

theorem write_of_ok {s : Statement} {written : Written} (h : (b.execute s).1 = .ok written) :
    ∃ b' : Backend, b'.records = b.records ∧ b'.naming = b.naming ∧ b.execute s = b'.write s := by
  obtain ⟨b', hrecords, hnaming, ⟨fault, _, hfails⟩ | hwrites⟩ := b.execute_cases s
  · rw [hfails] at h
    exact nomatch h
  · exact ⟨b', hrecords, hnaming, hwrites⟩

theorem writeOther_ne_error (b : Backend) (s : Statement) (fault : BackendFault) :
    (b.writeOther s).1 ≠ .error fault := by
  unfold writeOther
  simp only
  split <;> exact nofun

theorem updateRecord_ne_error (b : Backend) (table : String) (text : Json) (key : String)
    (fault : BackendFault) : (b.updateRecord table text key).1 ≠ .error fault := by
  unfold updateRecord
  split <;> exact nofun

theorem deleteRecord_ne_error (b : Backend) (table : String) (fault : BackendFault) :
    (b.deleteRecord table).1 ≠ .error fault := by
  unfold deleteRecord
  split <;> exact nofun

theorem insertRecord_error {table : String} {text : Json} {fault : BackendFault}
    (h : (b.insertRecord table text).1 = .error fault) :
    b.insertRecord table text = (.error fault, b) ∧ b.records.get? table ≠ none := by
  unfold insertRecord at h ⊢
  split at h
  · rename_i hthere
    rw [if_pos hthere]
    exact ⟨Prod.ext h rfl, Option.isSome_iff_ne_none.mp hthere⟩
  · exact nomatch h

/-- What is written fails only on a key that is there. -/
theorem write_error {s : Statement} {fault : BackendFault} (h : (b.write s).1 = .error fault) :
    (b.write s).2 = b ∧ ∃ table, Records.InsertsKey b.naming s table ∧
      b.records.get? table ≠ none := by
  unfold write at h ⊢
  split at h
  · rename_i hsql
    rw [if_pos hsql]
    split at h
    · rename_i table text hparams
      obtain ⟨herror, hthere⟩ := insertRecord_error h
      rw [herror]
      exact ⟨rfl, table, ⟨hsql, congrArg List.head? hparams⟩, hthere⟩
    · exact absurd h (writeOther_ne_error b s fault)
  · split at h
    · split at h
      · exact absurd h (updateRecord_ne_error b _ _ _ fault)
      · exact absurd h (writeOther_ne_error b s fault)
    · split at h
      · split at h
        · exact absurd h (deleteRecord_ne_error b _ fault)
        · exact absurd h (writeOther_ne_error b s fault)
      · exact absurd h (writeOther_ne_error b s fault)

/-- A statement that fails was not received, or inserts a key that is there. -/
theorem failed_cases (hnaming : b.naming = naming) {s : Statement} {fault : BackendFault}
    (h : (b.execute s).1 = .error fault) : (b.execute s).2.records = b.records ∧
      (b.failures ≠ [] ∨ ∃ table, Records.InsertsKey naming s table ∧
        b.records.get? table ≠ none) := by
  obtain ⟨b', hrecords, hnaming', ⟨fault', hpending, hfails⟩ | hwrites⟩ := b.execute_cases s
  · rw [hfails]
    exact ⟨hrecords, Or.inl hpending⟩
  · rw [hwrites] at h ⊢
    obtain ⟨hsame, hinserts⟩ := write_error h
    rw [hnaming', hnaming, hrecords] at hinserts
    exact ⟨(congrArg Backend.records hsame).trans hrecords, Or.inr hinserts⟩

theorem execute_insert (hnaming : b.naming = naming) {table text : String} {written : Written}
    (h : (b.execute (Records.insertRecord naming table text)).1 = .ok written) :
    b.records.get? table = none ∧
      (b.execute (Records.insertRecord naming table text)).2.records.get? =
        update b.records.get? table (some (rowOf text)) := by
  obtain ⟨b', hrecords, hnaming', hwrites⟩ := write_of_ok h
  rw [hwrites, write_insert (hnaming'.trans hnaming), insertRecord] at h ⊢
  split at h
  · exact nomatch h
  · rename_i hfresh
    rw [if_neg hfresh, ← hrecords]
    refine ⟨?_, get?_recordOf b' table text⟩
    simpa [OrderedMap.contains] using hfresh

theorem execute_move (hnaming : b.naming = naming) {table text key : String} {written : Written}
    (h : (b.execute (Records.updateRecord naming table text key)).1 = .ok written) :
    (b.execute (Records.updateRecord naming table text key)).2.records.get? =
      if (b.records.get? key).isSome then
        update (update b.records.get? key none) table (some (rowOf text))
      else b.records.get? := by
  obtain ⟨b', hrecords, hnaming', hwrites⟩ := write_of_ok h
  rw [hwrites, write_update (hnaming'.trans hnaming), updateRecord, ← hrecords]
  show (if (b'.records.get? key).isSome = true then _ else _ : Except _ _ × Backend).2.records.get? = _
  split
  · rw [← get?_without]
    exact get?_recordOf { b' with records := b'.records.erase key } table text
  · rfl

theorem execute_delete (hnaming : b.naming = naming) {table : String} {written : Written}
    (h : (b.execute (Records.deleteRecord naming table)).1 = .ok written) :
    (b.execute (Records.deleteRecord naming table)).2.records.get? =
      update b.records.get? table none := by
  obtain ⟨b', hrecords, hnaming', hwrites⟩ := write_of_ok h
  rw [hwrites, write_delete (hnaming'.trans hnaming), deleteRecord, ← hrecords]
  split
  · exact get?_without b' table
  · rename_i hmissing
    have hnone : b'.records.get? table = none := by simpa [OrderedMap.contains] using hmissing
    rw [← hnone, Function.update_eq_self]

theorem execute_other (hnaming : b.naming = naming) {s : Statement} (hs : ¬ Writes naming s) :
    (b.execute s).2.records = b.records := by
  obtain ⟨b', hrecords, hnaming', ⟨fault, _, hfails⟩ | hwrites⟩ := b.execute_cases s
  · rw [hfails, hrecords]
  · rw [hwrites, write_other (hnaming'.trans hnaming) hs, writeOther_same, hrecords]

end Backend

/-- The records of the scripted database. -/
def scriptedRecords (naming : TableNaming) (failing : Bool) :
    RecordTable naming (scriptedUnder naming failing) where
  records b := b.records.get?
  fetch_same b s := congrArg OrderedMap.get? (Backend.fetch_same (b.under naming failing) s)
  fetch_record {b _ _} h := Backend.fetch_selectSchema (b := b.under naming failing) rfl h
  failed_same {b _ _} h :=
    congrArg OrderedMap.get? (Backend.failed_cases (b := b.under naming failing) rfl h).1
  insert {b _ _ _} h := Backend.execute_insert (b := b.under naming failing) rfl h
  move {b _ _ _ _} h := Backend.execute_move (b := b.under naming failing) rfl h
  delete {b _ _} h := Backend.execute_delete (b := b.under naming failing) rfl h
  other_same {b _} hs :=
    congrArg OrderedMap.get? (Backend.execute_other (b := b.under naming failing) rfl hs)

/-- Without pending failures a statement fails only on a key that is there. -/
theorem scripted_failsOnly (naming : TableNaming) :
    (scriptedRecords naming false).FailsOnly False := by
  constructor
  · intro b s fault h
    exact Backend.fetch_pending (b := b.under naming false) h rfl
  · intro b s fault h
    exact (Backend.failed_cases (b := b.under naming false) rfl h).2.imp_left
      fun hpending => hpending rfl

/-- Nothing is recorded, and the next record cannot be written. -/
def unrecordable : World Backend where
  database := { naming := {}, failures := ["INSERT INTO "] }
  handlers := { hook := migrationHook }

end ContentTables
