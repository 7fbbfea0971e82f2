import ContentTables.Proofs.Store.RecordText
import ContentTables.Proofs.Store.Running
import ContentTables.Store.Migration
import Mathlib.Logic.Function.Basic

/-!
# Databases that keep the schema records

What the store relies on is that the metadata table holds one record for each key, that only the
three statements on records change it, and that a statement that fails changes nothing. Everything
else is left to the database, and so is which statements fail.

* `RecordTable`, `RecordTable.FailsOnly` : such a database, and what it takes for a statement to
  fail there;
* `RecordTable.Coherent` : the schemas in memory are those of the records;
* `RecordTable.Moves` : an operation keeps memory coherent; if it fails the records are as they were,
  otherwise they have changed as stated;
* `Moves.bind`, `Moves.skip`, `Moves.settle`, `Moves.finish` and the rules for single steps;
* `RecordTable.Leaves` : the same of an operation that may fail after it has changed records, which
  says only what it does where it succeeds; `Leaves.fails` where it cannot;
* `moves_find?`, `moves_get`, `moves_put`, `moves_replace`, `moves_drop` : the operations on records.
-/

namespace ContentTables

open Function (update)

variable {σ α β : Type}

/-- The record of each table. -/
abbrev RecordMap := String → Option Row

theorem eq_of_update_ne {records : RecordMap} {record : Option Row} {key table : String}
    (h : update records key record table ≠ records table) : table = key :=
  by_contra fun hne => h (Function.update_of_ne hne _ _)

namespace Records

/-- The record with that text. -/
def rowOf (text : String) : Row := .ofList [("columns", .str text)]

/-- The statement is one of those that write records. -/
def Writes (naming : TableNaming) (s : Statement) : Prop :=
  s.sql = (insertRecord naming "" "").sql ∨ s.sql = (updateRecord naming "" "" "").sql ∨
    s.sql = (deleteRecord naming "").sql

instance (naming : TableNaming) (s : Statement) : Decidable (Writes naming s) :=
  inferInstanceAs (Decidable (_ ∨ _ ∨ _))

/-- The statement inserts a record of that table. -/
def InsertsKey (naming : TableNaming) (s : Statement) (table : String) : Prop :=
  s.sql = (insertRecord naming "" "").sql ∧ s.params.head? = some (.str table)

theorem prefix_of_append {word start rest : String} (h : word.toList <+: start.toList) :
    word.toList <+: (start ++ rest).toList := by
  rw [String.toList_append]
  exact h.trans (List.prefix_append _ _)

/-- Texts that start with different words are different. -/
theorem ne_of_starts {u v a b : String} (ha : u.toList <+: a.toList) (hb : v.toList <+: b.toList)
    (h : ¬ u.toList <+: v.toList ∧ ¬ v.toList <+: u.toList) : a ≠ b := by
  rintro rfl
  exact (List.prefix_or_prefix_of_prefix ha hb).elim h.1 h.2

section Statements
variable (naming : TableNaming) (table text key : String)

theorem writes_insertRecord : Writes naming (insertRecord naming table text) := Or.inl rfl

theorem writes_updateRecord : Writes naming (updateRecord naming table text key) :=
  Or.inr (Or.inl rfl)

theorem writes_deleteRecord : Writes naming (deleteRecord naming table) := Or.inr (Or.inr rfl)

theorem insertRecord_starts :
    "INSERT ".toList <+: (insertRecord naming table text).sql.toList :=
  prefix_of_append (prefix_of_append (by decide))

theorem updateRecord_starts :
    "UPDATE ".toList <+: (updateRecord naming table text key).sql.toList :=
  prefix_of_append (prefix_of_append (by decide))

theorem deleteRecord_starts : "DELETE ".toList <+: (deleteRecord naming table).sql.toList :=
  prefix_of_append (prefix_of_append (by decide))

end Statements

end Records

/-- A database with one record for each key that has one. -/
structure RecordTable (naming : TableNaming) (db : Database σ) where
  records : σ → RecordMap
  fetch_same : ∀ state s, records (db.fetch state s).2 = records state
  fetch_record : ∀ {state table rows},
    (db.fetch state (Records.selectSchema naming table)).1 = .ok rows →
      rows.head? = records state table
  failed_same : ∀ {state s fault}, (db.execute state s).1 = .error fault →
    records (db.execute state s).2 = records state
  insert : ∀ {state table text written},
    (db.execute state (Records.insertRecord naming table text)).1 = .ok written →
      records state table = none ∧
        records (db.execute state (Records.insertRecord naming table text)).2 =
          update (records state) table (some (Records.rowOf text))
  /-- A key without a record has nothing to move. -/
  move : ∀ {state table text key written},
    (db.execute state (Records.updateRecord naming table text key)).1 = .ok written →
      records (db.execute state (Records.updateRecord naming table text key)).2 =
        if (records state key).isSome then
          update (update (records state) key none) table (some (Records.rowOf text))
        else records state
  delete : ∀ {state table written},
    (db.execute state (Records.deleteRecord naming table)).1 = .ok written →
      records (db.execute state (Records.deleteRecord naming table)).2 =
        update (records state) table none
  other_same : ∀ {state s}, ¬ Records.Writes naming s →
    records (db.execute state s).2 = records state

namespace RecordTable

variable {naming : TableNaming} {db : Database σ} (R : RecordTable naming db)

/-- A statement fails only if there are faults, or if it inserts a key that is there. -/
structure FailsOnly (faults : Prop) : Prop where
  fetch : ∀ {state s fault}, (db.fetch state s).1 = .error fault → faults
  execute : ∀ {state s fault}, (db.execute state s).1 = .error fault → faults ∨
    ∃ table, Records.InsertsKey naming s table ∧ R.records state table ≠ none

theorem failsOnly_true : R.FailsOnly True := ⟨fun _ => trivial, fun _ => Or.inl trivial⟩

/-! ## Worlds -/

def recorded (w : World σ) : RecordMap := R.records w.database

/-- Every schema in memory is the one in the record of its table. -/
def Coherent (w : World σ) : Prop :=
  ∀ table schema, w.caches.schema? table = some schema →
    ∃ record, R.recorded w table = some record ∧ Records.decode record = .ok schema

variable {R} {w : World σ}

/-- Neither the records nor the schemas in memory have changed. -/
theorem Coherent.of_same {w' : World σ} (h : R.Coherent w) (hrecords : R.recorded w' = R.recorded w)
    (hschemas : ∀ table, w'.caches.schema? table = w.caches.schema? table) : R.Coherent w' := by
  intro table schema hcached
  rw [hrecords]
  exact h table schema (hschemas table ▸ hcached)

theorem Coherent.forget (h : R.Coherent w) (table : String) :
    R.Coherent { w with caches := w.caches.forgetSchema table } := by
  intro key schema hcached
  change (w.caches.forgetSchema table).schema? key = _ at hcached
  rw [Caches.schema?_forgetSchema] at hcached
  split at hcached
  · exact nomatch hcached
  · exact h key schema hcached

/-- The schemas of all tables whose records have changed have been forgotten. -/
theorem Coherent.write {state : σ} (h : R.Coherent w)
    (hchanged : ∀ table, R.records state table ≠ R.recorded w table →
      w.caches.schema? table = none) : R.Coherent { w with database := state } := by
  intro table schema hcached
  show ∃ record, R.records state table = some record ∧ _
  by_cases hsame : R.records state table = R.recorded w table
  · rw [hsame]
    exact h table schema hcached
  · exact nomatch (hchanged table hsame).symm.trans hcached

/-! ## Operations that move the records -/

variable (R)

/-- How an operation may end that started with these records. -/
def Outcome (faults : Prop) (before : RecordMap) (change : RecordMap → α → Prop)
    (final : Except StoreError α × World σ) : Prop :=
  R.Coherent final.2 ∧
    match final.1 with
    | .ok a => change (R.recorded final.2) a
    | .error _ => faults ∧ R.recorded final.2 = before

/-- From these records, with coherent memory. A failure takes faults, and changes no record. -/
def Moves (faults : Prop) (before : RecordMap) (x : Operation α)
    (change : RecordMap → α → Prop) : Prop :=
  ∀ w, R.Coherent w → R.recorded w = before → R.Outcome faults before change (x.exec db w)

/-- The schemas of some tables are not in memory. -/
def MovesForgotten (keys : List String) (faults : Prop) (before : RecordMap) (x : Operation α)
    (change : RecordMap → α → Prop) : Prop :=
  ∀ w, R.Coherent w → R.recorded w = before → (∀ key ∈ keys, w.caches.schema? key = none) →
    R.Outcome faults before change (x.exec db w)

/-- From these records, with coherent memory, and wherever the operation succeeds. -/
def Leaves (before : RecordMap) (x : Operation α) (change : RecordMap → α → Prop) : Prop :=
  ∀ w, R.Coherent w → R.recorded w = before → ∀ a w', x.exec db w = (.ok a, w') →
    R.Coherent w' ∧ change (R.recorded w') a

variable {R} {faults : Prop} {before : RecordMap}

section Rules
variable {x : Operation α} {f : α → Operation β} {mid : RecordMap → α → Prop}
  {change : RecordMap → β → Prop}

theorem Outcome.mono {change' : RecordMap → α → Prop} {final : Except StoreError α × World σ}
    (h : R.Outcome faults before mid final) (hmid : ∀ after a, mid after a → change' after a) :
    R.Outcome faults before change' final := by
  obtain ⟨hcoherent, hresult⟩ := h
  refine ⟨hcoherent, ?_⟩
  rcases final with ⟨e | a, w⟩
  · exact hresult
  · exact hmid _ a hresult

/-- What never fails does not need faults to fail. -/
theorem Outcome.of_never {start : RecordMap} {final : Except StoreError α × World σ}
    (h : R.Outcome False start mid final) : R.Outcome faults before mid final := by
  obtain ⟨hcoherent, hresult⟩ := h
  refine ⟨hcoherent, ?_⟩
  rcases final with ⟨e | a, w⟩
  · exact hresult.1.elim
  · exact hresult

/-- The rest cannot fail. -/
theorem Outcome.settle (h : R.Outcome faults before mid (x.exec db w))
    (hf : ∀ after a, mid after a → R.Moves False after (f a) change) :
    R.Outcome faults before change ((x >>= f).exec db w) := by
  obtain ⟨hcoherent, hresult⟩ := h
  rw [Operation.exec_bind]
  rcases hexec : x.exec db w with ⟨e | a, w'⟩ <;> rw [hexec] at hcoherent hresult
  · exact ⟨hcoherent, hresult⟩
  · exact (hf _ a hresult w' hcoherent rfl).of_never

theorem Moves.mono {change' : RecordMap → α → Prop} (h : R.Moves faults before x mid)
    (hmid : ∀ after a, mid after a → change' after a) : R.Moves faults before x change' :=
  fun w hw hrecords => (h w hw hrecords).mono hmid

theorem Moves.of_never (h : R.Moves False before x mid) : R.Moves faults before x mid :=
  fun w hw hrecords => (h w hw hrecords).of_never

/-- Without faults there is a result. -/
theorem Moves.succeeds {w : World σ} (h : R.Moves False (R.recorded w) x mid)
    (hw : R.Coherent w) :
    ∃ a w', x.exec db w = (.ok a, w') ∧ R.Coherent w' ∧ mid (R.recorded w') a := by
  obtain ⟨hcoherent, hresult⟩ := h w hw rfl
  rcases hexec : x.exec db w with ⟨e | a, w'⟩ <;> rw [hexec] at hcoherent hresult
  · exact hresult.1.elim
  · exact ⟨a, w', rfl, hcoherent, hresult⟩

theorem Moves.settle (h : R.Moves faults before x mid)
    (hf : ∀ after a, mid after a → R.Moves False after (f a) change) :
    R.Moves faults before (x >>= f) change :=
  fun w hw hrecords => (h w hw hrecords).settle hf

/-- The first part only reads. -/
theorem Moves.bind {P : α → Prop} (h : R.Moves faults before x fun after a => after = before ∧ P a)
    (hf : ∀ a, P a → R.Moves faults before (f a) change) :
    R.Moves faults before (x >>= f) change := by
  intro w hw hrecords
  obtain ⟨hcoherent, hresult⟩ := h w hw hrecords
  rw [Operation.exec_bind]
  rcases hexec : x.exec db w with ⟨e | a, w'⟩ <;> rw [hexec] at hcoherent hresult
  · exact ⟨hcoherent, hresult⟩
  · exact hf a hresult.2 w' hcoherent hresult.1

/-- The first part changes nothing, and it does not matter what it answers. -/
theorem Moves.skip (h : R.Moves faults before x fun after _ => after = before)
    (hf : ∀ a, R.Moves faults before (f a) change) : R.Moves faults before (x >>= f) change :=
  (h.mono fun _ _ hsame => ⟨hsame, trivial⟩).bind (P := fun _ => True) fun a _ => hf a

/-- The rest cannot fail, and changes nothing. -/
theorem Moves.finish {y : Operation Unit} {change : RecordMap → Prop}
    (h : R.Moves faults before x fun after _ => change after)
    (hy : ∀ after, R.Moves False after y fun last _ => last = after) :
    R.Moves faults before (x >>= fun _ => y) fun after _ => change after :=
  h.settle fun after _ hafter => (hy after).mono fun _ _ hsame => hsame ▸ hafter

theorem moves_pure {a : α} (h : mid before a) : R.Moves faults before (pure a) mid := by
  intro w hw hrecords
  subst hrecords
  exact ⟨hw, h⟩

theorem moves_throw (h : faults) (e : StoreError) : R.Moves faults before (throw e) mid :=
  fun _ hw hrecords => ⟨hw, h, hrecords⟩

theorem moves_ofExcept {result : Except StoreError α} (h : faults ∨ ∃ a, result = .ok a) :
    R.Moves faults before (Operation.ofExcept result)
      fun after a => after = before ∧ result = .ok a := by
  intro w hw hrecords
  rw [Operation.exec_ofExcept]
  refine ⟨hw, ?_⟩
  cases result with
  | ok a => exact ⟨hrecords, rfl⟩
  | error e =>
    refine ⟨h.elim id ?_, hrecords⟩
    rintro ⟨a, ha⟩
    exact nomatch ha

/-- An effect on memory that leaves the schemas. -/
theorem moves_ask {e : Effect} (he : ∀ w : World σ, (w.answer db e).2.database = w.database ∧
    (w.answer db e).2.caches.schemas = w.caches.schemas) :
    R.Moves faults before (Operation.ask e) fun after _ => after = before := by
  intro w hw hrecords
  obtain ⟨hdatabase, hschemas⟩ := he w
  have hsame : R.recorded (w.answer db e).2 = R.recorded w := congrArg R.records hdatabase
  exact ⟨hw.of_same hsame fun table =>
    congrArg (·.get? Caches.schemaGroup table) hschemas, hsame.trans hrecords⟩

theorem moves_forM {τ : Type} {g : τ → Operation Unit} {ts : List τ}
    (h : ∀ t ∈ ts, R.Moves False before (g t) fun after _ => after = before) :
    R.Moves faults before (ts.forM g) fun after _ => after = before := by
  refine Moves.of_never ?_
  induction ts with
  | nil => exact moves_pure rfl
  | cons t ts ih =>
    refine (h t List.mem_cons_self).settle fun after _ hafter => ?_
    rw [hafter]
    exact ih fun u hu => h u (List.mem_cons_of_mem t hu)

/-- What each step of a loop keeps, for the items that are left. -/
theorem moves_forM_steps {τ : Type} {g : τ → Operation Unit} (I : List τ → RecordMap → Prop)
    (hstep : ∀ t rest before, I (t :: rest) before →
      R.Moves False before (g t) fun after _ => I rest after)
    {ts : List τ} {before : RecordMap} (h : I ts before) :
    R.Moves False before (ts.forM g) fun after _ => I [] after := by
  induction ts generalizing before with
  | nil => exact moves_pure h
  | cons t ts ih => exact (hstep t ts before h).settle fun after _ hafter => ih hafter

theorem Moves.leaves (h : R.Moves faults before x mid) : R.Leaves before x mid := by
  intro w hw hrecords a w' hexec
  obtain ⟨hcoherent, hresult⟩ := h w hw hrecords
  rw [hexec] at hcoherent hresult
  exact ⟨hcoherent, hresult⟩

theorem Leaves.mono {change' : RecordMap → α → Prop} (h : R.Leaves before x mid)
    (hmid : ∀ after a, mid after a → change' after a) : R.Leaves before x change' := by
  intro w hw hrecords a w' hexec
  obtain ⟨hcoherent, hresult⟩ := h w hw hrecords a w' hexec
  exact ⟨hcoherent, hmid _ a hresult⟩

theorem Leaves.bind (h : R.Leaves before x mid)
    (hf : ∀ after a, mid after a → R.Leaves after (f a) change) :
    R.Leaves before (x >>= f) change := by
  intro w hw hrecords b w'' hexec
  obtain ⟨a, w', hfirst, hrest⟩ := (Operation.exec_bind_eq_ok_iff db).mp hexec
  obtain ⟨hcoherent, hmid⟩ := h w hw hrecords a w' hfirst
  exact hf _ a hmid w' hcoherent rfl b w'' hrest

/-- The first part cannot succeed. -/
theorem Leaves.stop (h : R.Leaves before x fun _ _ => False) : R.Leaves before (x >>= f) change :=
  h.bind fun _ _ hnever => hnever.elim

theorem leaves_forM_steps {τ : Type} {g : τ → Operation Unit} (I : List τ → RecordMap → Prop)
    (hstep : ∀ t rest before, I (t :: rest) before →
      R.Leaves before (g t) fun after _ => I rest after)
    {ts : List τ} {before : RecordMap} (h : I ts before) :
    R.Leaves before (ts.forM g) fun after _ => I [] after := by
  induction ts generalizing before with
  | nil =>
    have hdone : R.Moves False before (pure ()) fun after _ => I [] after := moves_pure h
    exact hdone.leaves
  | cons t ts ih => exact (hstep t ts before h).bind fun after _ hafter => ih hafter

theorem Leaves.fails {w : World σ} (h : R.Leaves (R.recorded w) x fun _ _ => False)
    (hw : R.Coherent w) : ∃ e w', x.exec db w = (.error e, w') := by
  rcases hexec : x.exec db w with ⟨e | a, w'⟩
  · exact ⟨e, w', rfl⟩
  · exact (h w hw rfl a w' hexec).2.elim

/-- A statement that does not write records; what it answers does not matter. -/
theorem moves_execute_other {s : Statement} (hs : ¬ Records.Writes naming s) :
    R.Moves faults before (Operation.ask (.execute s)) fun after _ => after = before := by
  intro w hw hrecords
  have hsame : R.recorded (w.answer db (.execute s)).2 = R.recorded w := R.other_same hs
  exact ⟨hw.of_same hsame fun _ => rfl, hsame.trans hrecords⟩

end Rules

/-! ## Statements on records -/

section Statements
variable {keys : List String} {s : Statement} {change : RecordMap → α → Prop}

theorem MovesForgotten.moves {x : Operation α} (h : R.MovesForgotten [] faults before x change) :
    R.Moves faults before x change :=
  fun w hw hrecords => h w hw hrecords fun _ hkey => absurd hkey List.not_mem_nil

theorem movesForgotten_forget_bind {table : String} {f : Unit → Operation α}
    (h : R.MovesForgotten (table :: keys) faults before (f ()) change) :
    R.MovesForgotten keys faults before (Records.forget table >>= f) change := by
  intro w hw hrecords hkeys
  refine h { w with caches := w.caches.forgetSchema table } (hw.forget table) hrecords fun key hkey => ?_
  show (w.caches.forgetSchema table).schema? key = none
  rw [Caches.schema?_forgetSchema]
  split
  · rfl
  · rename_i hne
    exact hkeys key ((List.mem_cons.mp hkey).resolve_left hne)

theorem moves_forget (table : String) :
    R.Moves faults before (Records.forget table) fun after _ => after = before :=
  fun _ hw hrecords => ⟨hw.forget table, hrecords⟩

theorem MovesForgotten.finish {x : Operation α} {y : Operation Unit} {change : RecordMap → Prop}
    (h : R.MovesForgotten keys faults before x fun after _ => change after)
    (hy : ∀ after, R.Moves False after y fun last _ => last = after) :
    R.MovesForgotten keys faults before (x >>= fun _ => y) fun after _ => change after :=
  fun w hw hrecords hkeys => (h w hw hrecords hkeys).settle fun after _ hafter =>
    (hy after).mono fun _ _ hsame => hsame ▸ hafter

/-- A statement that changes the records of forgotten tables only. -/
theorem movesForgotten_execute {change : RecordMap → Prop}
    (hfails : ∀ {state fault}, R.records state = before →
      (db.execute state s).1 = .error fault → faults)
    (hwrites : ∀ {state written}, R.records state = before →
      (db.execute state s).1 = .ok written → change (R.records (db.execute state s).2))
    (hkeys : ∀ {after}, change after → ∀ table, after table ≠ before table → table ∈ keys) :
    R.MovesForgotten keys faults before (Operation.execute s) fun after _ => change after := by
  intro w hw hrecords hforgotten
  rw [Operation.exec_execute]
  cases hresult : (db.execute w.database s).1 with
  | error fault =>
    have hsame := R.failed_same hresult
    exact ⟨hw.of_same hsame fun _ => rfl, hfails hrecords hresult, hsame.trans hrecords⟩
  | ok written =>
    have hchange := hwrites hrecords hresult
    refine ⟨hw.write fun table hchanged => hforgotten table (hkeys hchange table ?_), hchange⟩
    rw [hrecords] at hchanged
    exact hchanged

end Statements

/-! ## Reading records -/

theorem moves_cachedSchema (table : String) : R.Moves faults before
    (Operation.ask (.cachedSchema table)) fun after cached => after = before ∧
      ∀ schema, cached = some schema →
        ∃ record, before table = some record ∧ Records.decode record = .ok schema := by
  intro w hw hrecords
  refine ⟨hw, hrecords, fun schema hcached => ?_⟩
  rw [← hrecords]
  exact hw table schema hcached

theorem moves_keepSchema {table : String} {schema : TableSchema} {record : Row}
    (hrecord : before table = some record) (hdecoded : Records.decode record = .ok schema)
    (generation : Nat) : R.Moves faults before
      (Operation.ask (.keepSchema table schema generation)) fun after _ => after = before := by
  intro w hw hrecords
  refine ⟨fun key cached hcached => ?_, hrecords⟩
  rcases Caches.schema?_keepSchema hcached with ⟨_, rfl, rfl⟩ | hcached
  · exact ⟨record, (congrFun hrecords key).trans hrecord, hdecoded⟩
  · exact hw key cached hcached

theorem moves_fetch (hfaults : R.FailsOnly faults) (s : Statement) :
    R.Moves faults before (Operation.fetch s) fun after _ => after = before := by
  intro w hw hrecords
  have hsame : R.records (db.fetch w.database s).2 = R.recorded w := R.fetch_same _ _
  rw [Operation.exec_fetch]
  refine ⟨hw.of_same hsame fun _ => rfl, ?_⟩
  cases hresult : (db.fetch w.database s).1 with
  | error fault => exact ⟨hfaults.fetch hresult, hsame.trans hrecords⟩
  | ok rows => exact hsame.trans hrecords

theorem moves_fetchRecord (hfaults : R.FailsOnly faults) (table : String) : R.Moves faults before
    (Operation.fetch (Records.selectSchema naming table)) fun after rows =>
      after = before ∧ rows.head? = before table := by
  intro w hw hrecords
  have hsame : R.records (db.fetch w.database (Records.selectSchema naming table)).2 =
      R.recorded w := R.fetch_same _ _
  rw [Operation.exec_fetch]
  refine ⟨hw.of_same hsame fun _ => rfl, ?_⟩
  cases hresult : (db.fetch w.database (Records.selectSchema naming table)).1 with
  | error fault => exact ⟨hfaults.fetch hresult, hsame.trans hrecords⟩
  | ok rows => exact ⟨hsame.trans hrecords, (R.fetch_record hresult).trans (congrFun hrecords table)⟩

/-- The look-up finds what the record says. -/
def Found (record : Option Row) : Option TableSchema → Prop
  | none => record = none
  | some schema => ∃ row, record = some row ∧ Records.decode row = .ok schema

/-- There is no record, or a schema can be read from it. -/
def Readable (record : Option Row) : Prop :=
  ∀ row, record = some row → ∃ schema, Records.decode row = .ok schema

theorem readable_none : Readable none := nofun

theorem readable_of_found {record : Option Row} {found : Option TableSchema}
    (h : Found record found) : Readable record := by
  intro row hrow
  cases found with
  | none => exact nomatch hrow.symm.trans h
  | some schema =>
    obtain ⟨row', hrow', hdecoded⟩ := h
    obtain rfl := Option.some.inj (hrow'.symm.trans hrow)
    exact ⟨schema, hdecoded⟩

section Operations
variable (hfaults : R.FailsOnly faults) {table : String} {schema : TableSchema}
include hfaults

theorem moves_find? (hreadable : faults ∨ Readable (before table)) :
    R.Moves faults before (Records.find? naming table) fun after found =>
      after = before ∧ Found (before table) found := by
  unfold Records.find?
  refine (moves_cachedSchema table).bind fun cached hcached => ?_
  cases cached with
  | some schema => exact moves_pure ⟨rfl, hcached schema rfl⟩
  | none =>
    refine (moves_ask fun _ => ⟨rfl, rfl⟩).skip fun generation => ?_
    refine (moves_fetchRecord hfaults table).bind fun rows hrows => ?_
    rw [hrows]
    cases hrecord : before table with
    | none => exact moves_pure ⟨rfl, rfl⟩
    | some record =>
      refine (moves_ofExcept (hreadable.imp_right fun h => h record hrecord)).bind
        fun schema hdecoded => ?_
      exact (moves_keepSchema hrecord hdecoded generation).skip fun _ =>
        moves_pure ⟨rfl, record, rfl, hdecoded⟩

theorem moves_get (hreadable : faults ∨ ∃ row schema, before table = some row ∧
      Records.decode row = .ok schema) :
    R.Moves faults before (Records.get naming table) fun after schema =>
      after = before ∧ Found (before table) (some schema) := by
  unfold Records.get
  refine (moves_find? hfaults ?_).bind fun found hfound => ?_
  · refine hreadable.imp_right ?_
    rintro ⟨row, schema, hrow, hdecoded⟩ row' hrow'
    obtain rfl := Option.some.inj (hrow.symm.trans hrow')
    exact ⟨schema, hdecoded⟩
  · cases found with
    | some schema => exact moves_pure ⟨rfl, hfound⟩
    | none =>
      refine moves_throw (hreadable.elim id ?_) _
      rintro ⟨row, _, hrow, _⟩
      exact nomatch hrow.symm.trans hfound

/-! ## Writing records -/

theorem moves_put (hnew : faults ∨ before table = none) :
    R.Moves faults before (Records.put naming table schema) fun after _ =>
      before table = none ∧ after = update before table (some (Records.encode schema)) := by
  unfold Records.put
  refine MovesForgotten.moves (movesForgotten_forget_bind ?_)
  refine (movesForgotten_execute ?_ ?_ ?_).finish fun _ => moves_forget table
  · intro state fault hrecords hfails
    refine (hfaults.execute hfails).elim id ?_
    rintro ⟨table', ⟨_, hkey⟩, hthere⟩
    obtain rfl : table = table' := by
      injection Option.some.inj hkey
    exact hnew.elim id fun hfresh => absurd (hrecords ▸ hfresh) hthere
  · intro state written hrecords hwrites
    obtain ⟨hfresh, hrecord⟩ := R.insert hwrites
    rw [hrecords] at hfresh hrecord
    exact ⟨hfresh, hrecord⟩
  · rintro _ ⟨_, rfl⟩ key hkey
    exact List.mem_singleton.mpr (eq_of_update_ne hkey)

/-- A statement that does not insert a record fails only if there are faults. -/
theorem faults_of_failed {state : σ} {s : Statement} {fault : BackendFault}
    (hs : s.sql ≠ (Records.insertRecord naming "" "").sql)
    (hfails : (db.execute state s).1 = .error fault) : faults :=
  (hfaults.execute hfails).elim id fun ⟨_, hinserts, _⟩ => absurd hinserts.1 hs

theorem moves_replace {key : String} (hkey : before key ≠ none) :
    R.Moves faults before (Records.replace naming key table schema) fun after _ =>
      after = update (update before key none) table (some (Records.encode schema)) := by
  unfold Records.replace
  refine MovesForgotten.moves (movesForgotten_forget_bind (movesForgotten_forget_bind ?_))
  refine (movesForgotten_execute ?_ ?_ ?_).finish fun _ =>
    (moves_forget key).skip fun _ => moves_forget table
  · intro state fault _ hfails
    exact faults_of_failed hfaults (Records.ne_of_starts (Records.updateRecord_starts ..)
      (Records.insertRecord_starts ..) (by decide)) hfails
  · intro state written hrecords hwrites
    have hthere : (R.records state key).isSome = true := by
      rw [hrecords]
      exact Option.isSome_iff_ne_none.mpr hkey
    rw [R.move hwrites, if_pos hthere, hrecords]
    rfl
  · rintro _ rfl other hother
    by_cases htable : other = table
    · exact htable ▸ List.mem_cons_self
    · rw [Function.update_of_ne htable] at hother
      exact eq_of_update_ne hother ▸ List.mem_cons_of_mem _ List.mem_cons_self

theorem moves_drop : R.Moves faults before (Records.drop naming table) fun after _ =>
    after = update before table none := by
  unfold Records.drop
  refine MovesForgotten.moves (movesForgotten_forget_bind ?_)
  refine (movesForgotten_execute ?_ ?_ ?_).finish fun _ => moves_forget table
  · intro state fault _ hfails
    exact faults_of_failed hfaults (Records.ne_of_starts (Records.deleteRecord_starts ..)
      (Records.insertRecord_starts ..) (by decide)) hfails
  · intro state written hrecords hwrites
    rw [R.delete hwrites, hrecords]
  · rintro _ rfl key hkey
    exact List.mem_singleton.mpr (eq_of_update_ne hkey)

end Operations

end RecordTable

end ContentTables
