import ContentTables.Proofs.ContentType.Refusals
import ContentTables.Proofs.Store.Reconciling
import ContentTables.Proofs.Store.Views

/-!
# Installing the core tables on every start

The installation may stop at any statement and be started again, with memory as it was left or with
nothing in memory. What every attempt preserves, wherever it stops, is that the records of the core
tables can be read, and later that they have the desired content.

* `TableSchema.stable_of_plainDefaults`, `coreTables_stable` : the core tables read back as they are
  written;
* `StoreView.Coherent`, `RecordTable.preserves_of_moves` : what a step preserves whether it fails or
  not;
* `CoreRecords`, `CoreRecords.reconciled` : something holds of the record of each core table, and
  all others are as they were; reconciling one table leaves it so;
* `preserves_installation`, `moves_installation`, `reads_installation` : an attempt that may fail
  anywhere, one in which nothing fails, and one that finds everything there;
* `core_installation_resumes` : after any attempts the next one without failures brings all core
  tables to their shape, and from then on nothing is written.
-/

namespace ContentTables

open Function (update)
open Records (Holds)
open RecordTable (Readable)

/-! ## Core tables read back as themselves -/

/-- A value that reads back as itself whatever it says. -/
def Json.isPlain : Json → Bool
  | .bool _ | .str _ | .num (.int _) => true
  | _ => false

theorem Json.readBack?_of_isPlain {v : Json} (h : v.isPlain = true) (k : Nat) :
    v.readBack? k = some v ∧ v.isNull = false := by
  cases v with
  | bool b => exact ⟨(readBack?_scalar k).2.1 b, rfl⟩
  | str s => exact ⟨(readBack?_scalar k).2.2 s, rfl⟩
  | num n =>
    cases n with
    | int n => exact ⟨by rw [readBack?_number, Number.readBack?_int, Option.map_some], rfl⟩
    | float x => exact nomatch h
  | null | arr | obj => exact nomatch h

theorem TableSchema.stable_of_plainDefaults {s : TableSchema}
    (h : (s.entries.all fun e => e.2.default.all Json.isPlain) = true) : s.Stable := by
  refine stable_iff.mpr fun name c hget => ?_
  have hplain := List.all_eq_true.mp h (name, c) (OrderedMap.get?_eq_some_iff.mp hget)
  have hdefault : Column.readDefault? c.default = some c.default := by
    unfold Column.readDefault?
    cases hc : c.default with
    | none => rfl
    | some v =>
      simp only [hc, Option.all_some] at hplain
      obtain ⟨hread, hnull⟩ := Json.readBack?_of_isPlain hplain 125
      simp only [hnull, hread]
      rfl
  rw [Column.readBack?_eq, hdefault, Option.map_some]

theorem coreTables_stable : ∀ entry ∈ coreTables, entry.2.Stable := by
  have hplain : (coreTables.all fun entry =>
      entry.2.entries.all fun e => e.2.default.all Json.isPlain) = true := by decide
  exact fun entry hentry =>
    TableSchema.stable_of_plainDefaults (List.all_eq_true.mp hplain entry hentry)

theorem coreTables_distinct {entry other : String × TableSchema} (hentry : entry ∈ coreTables)
    (hother : other ∈ coreTables) (hname : entry.1 = other.1) : entry = other := by
  have hnodup : (coreTables.map Prod.fst).Nodup := by decide
  exact List.inj_on_of_nodup_map hnodup hentry hother hname

/-! ## Steps that may fail -/

/-- Every schema in memory is the one in the record of its table. -/
def StoreView.Coherent (v : StoreView) : Prop :=
  ∀ table schema, v.schemas table = some schema →
    ∃ record, v.records table = some record ∧ Records.decode record = .ok schema

section Installation
variable {σ α : Type} {naming : TableNaming} {db : Database σ} {R : RecordTable naming db}

theorem RecordTable.preserves_of_moves {A : RecordMap → Prop} {x : Operation α}
    (h : ∀ before, A before → R.Moves True before x fun after _ => A after) :
    R.Preserves (fun v => v.Coherent ∧ A v.records) x := by
  rintro _ ⟨hcoherent, hA⟩ w rfl
  obtain ⟨hcoherent', hresult⟩ := h _ hA w hcoherent rfl
  rcases hexec : x.exec db w with ⟨e | a, w'⟩ <;> rw [hexec] at hcoherent' hresult
  · exact ⟨hcoherent', (congrArg A hresult.2).mpr hA⟩
  · exact ⟨hcoherent', hresult⟩

/-! ## The records of the core tables -/

/-- Of the record of each core table something holds, and all other records are the first ones. -/
structure CoreRecords (p : String × TableSchema → Option Row → Prop) (initial records : RecordMap) :
    Prop where
  core : ∀ entry ∈ coreTables, p entry (records entry.1)
  others : ∀ table, (∀ entry ∈ coreTables, entry.1 ≠ table) → records table = initial table

namespace CoreRecords

variable {p q : String × TableSchema → Option Row → Prop} {initial records : RecordMap}
  {entry : String × TableSchema}

theorem mono (h : CoreRecords p initial records)
    (hpq : ∀ entry ∈ coreTables, ∀ record, p entry record → q entry record) :
    CoreRecords q initial records :=
  ⟨fun entry hentry => hpq entry hentry _ (h.core entry hentry), h.others⟩

/-- One core table has been reconciled. -/
theorem reconciled (h : CoreRecords p initial records) (hentry : entry ∈ coreTables)
    {record : Option Row} (hrecord : q entry record)
    (hpq : ∀ other ∈ coreTables, other ≠ entry → ∀ record, p other record → q other record) :
    CoreRecords q initial (update records entry.1 record) := by
  refine ⟨fun other hother => ?_, fun table htable => ?_⟩
  · by_cases hsame : other = entry
    · rw [hsame, Function.update_self]
      exact hrecord
    · have hname : other.1 ≠ entry.1 := fun h => hsame (coreTables_distinct hother hentry h)
      rw [Function.update_of_ne hname]
      exact hpq other hother hsame _ (h.core other hother)
  · rw [Function.update_of_ne fun h => htable entry hentry h.symm]
    exact h.others table htable

end CoreRecords

def reconcileCore (naming : TableNaming) (entry : String × TableSchema) : Operation Unit := do
  let _ ← Migration.reconcile naming entry.1 entry.2

theorem install_eq (naming : TableNaming) : CoreTables.install naming = (do
    TableRequest.prepare naming .installCoreTables
    coreTables.forM (reconcileCore naming)) := by
  rw [TableRequest.prepare, bind_assoc]
  rfl

theorem moves_reconcileCore {faults : Prop} (hfaults : R.FailsOnly faults)
    {entry : String × TableSchema} (hentry : entry ∈ coreTables) {before : RecordMap}
    (hreadable : faults ∨ Readable (before entry.1)) :
    R.Moves faults before (reconcileCore naming entry) fun after _ =>
      ∃ record, Holds record entry.2 ∧ after = update before entry.1 record := by
  have hvalid : entry.2.validate = .ok () :=
    TableSchema.validate_eq_ok_iff.mpr (coreTables_valid entry hentry)
  exact (moves_reconcile hfaults (coreTables_stable entry hentry) (Or.inr hvalid)
    hreadable).settle fun _ _ h => RecordTable.moves_pure h.1

section Attempts
variable {p : String × TableSchema → Option Row → Prop} {initial : RecordMap}

theorem preserves_reconcileCore
    (hp : ∀ entry ∈ coreTables, ∀ record, Holds record entry.2 → p entry record)
    {entry : String × TableSchema} (hentry : entry ∈ coreTables) :
    R.Preserves (fun v => v.Coherent ∧ CoreRecords p initial v.records)
      (reconcileCore naming entry) := by
  refine RecordTable.preserves_of_moves fun before hbefore => ?_
  refine (moves_reconcileCore R.failsOnly_true hentry (Or.inl trivial)).mono ?_
  rintro _ _ ⟨record, hholds, rfl⟩
  exact hbefore.reconciled hentry (hp entry hentry record hholds) fun _ _ _ _ h => h

/-- An attempt, wherever it stops. -/
theorem preserves_installation
    (hp : ∀ entry ∈ coreTables, ∀ record, Holds record entry.2 → p entry record) :
    R.Preserves (fun v => v.Coherent ∧ CoreRecords p initial v.records)
      (CoreTables.install naming) := by
  rw [install_eq]
  exact (RecordTable.preserves_prepare .installCoreTables).bind fun _ =>
    RecordTable.preserves_forM fun _ hentry => preserves_reconcileCore hp hentry

/-- The records can be read, and those of the tables that are not left have the desired content. -/
def Remaining (rest : List (String × TableSchema)) (entry : String × TableSchema)
    (record : Option Row) : Prop :=
  Readable record ∧ (entry ∉ rest → Holds record entry.2)

/-- An attempt in which nothing fails. -/
theorem moves_installation (hfree : R.FailsOnly False) {before : RecordMap}
    (h : CoreRecords (fun _ => Readable) initial before) :
    R.Moves False before (CoreTables.install naming) fun after _ =>
      CoreRecords (fun entry record => Holds record entry.2) initial after := by
  have hstep : ∀ entry rest before, entry :: rest ⊆ coreTables ∧
        CoreRecords (Remaining (entry :: rest)) initial before →
      R.Moves False before (reconcileCore naming entry) fun after _ =>
        rest ⊆ coreTables ∧ CoreRecords (Remaining rest) initial after := by
    rintro entry rest before ⟨hleft, hbefore⟩
    have hentry : entry ∈ coreTables := hleft List.mem_cons_self
    refine (moves_reconcileCore hfree hentry (Or.inr (hbefore.core entry hentry).1)).mono ?_
    rintro _ _ ⟨record, hholds, rfl⟩
    refine ⟨fun other hother => hleft (List.mem_cons_of_mem entry hother),
      hbefore.reconciled hentry ⟨hholds.readable, fun _ => hholds⟩ ?_⟩
    rintro other _ hother record ⟨hreadable, hdone⟩
    exact ⟨hreadable, fun hnot => hdone fun hmem => (List.mem_cons.mp hmem).elim hother hnot⟩
  have hstart : CoreRecords (Remaining coreTables) initial before :=
    h.mono fun entry hentry record hreadable => ⟨hreadable, fun hnot => absurd hentry hnot⟩
  have hloop := RecordTable.moves_forM_steps (fun rest records =>
    rest ⊆ coreTables ∧ CoreRecords (Remaining rest) initial records) hstep
      ⟨List.Subset.refl coreTables, hstart⟩
  rw [install_eq]
  refine RecordTable.Moves.skip ?_ fun _ => hloop.mono fun after _ hafter => ?_
  · exact (RecordTable.moves_fetch hfree CoreTables.ping).skip fun _ =>
      moves_define hfree (Definition.defines_createMetadataTable naming)
  · exact hafter.2.mono fun entry _ record hrecord => hrecord.2 List.not_mem_nil

theorem mem_performed_execute {s : Statement} {w : World σ} {e : Effect}
    (he : e ∈ (Operation.execute s).run.performed db w) : e = .execute s := by
  rcases Operation.mem_performed_bind he with he | ⟨answer, w', _, he⟩
  · exact List.mem_singleton.mp he
  · cases answer <;> exact absurd he List.not_mem_nil

/-- What finds everything there only reads. -/
theorem reads_reconcileCores {ts : List (String × TableSchema)} (hts : ts ⊆ coreTables)
    {w : World σ} (hw : R.Coherent w)
    (h : CoreRecords (fun entry record => Holds record entry.2) initial (R.recorded w)) :
    ∀ e ∈ (ts.forM (reconcileCore naming)).run.performed db w, e.Reads := by
  induction ts generalizing w with
  | nil => exact nofun
  | cons entry rest ih =>
    obtain ⟨hentry, hrest⟩ := List.cons_subset.mp hts
    intro e he
    rcases Operation.mem_performed_bind he with he | ⟨_, w', hexec, he⟩
    · rcases Operation.mem_performed_bind he with he | ⟨_, _, _, he⟩
      · exact reads_reconcile hw (h.core entry hentry) e he
      · exact absurd he List.not_mem_nil
    · have hpreserved := (preserves_reconcileCore (R := R)
        (fun _ _ _ hholds => hholds) hentry).exec (w := w) ⟨hw, h⟩
      rw [hexec] at hpreserved
      exact ih hrest hpreserved.1 hpreserved.2 e he

/-- An attempt that finds everything there. -/
theorem reads_installation {w : World σ} (hw : R.Coherent w)
    (h : CoreRecords (fun entry record => Holds record entry.2) initial (R.recorded w)) :
    ∀ e ∈ (CoreTables.install naming).run.performed db w,
      e.Reads ∨ e = .execute { sql := Definition.createMetadataTable naming } := by
  intro e he
  rw [install_eq] at he
  rcases Operation.mem_performed_bind he with he | ⟨_, w', hexec, he⟩
  · rcases Operation.mem_performed_bind he with he | ⟨_, _, _, he⟩
    · exact Or.inl (Program.OnlyReads.reads (Operation.onlyReads_fetch (by decide)) _ e he)
    · rcases Operation.mem_performed_bind he with he | ⟨_, _, _, he⟩
      · exact Or.inr (mem_performed_execute he)
      · exact absurd he List.not_mem_nil
  · have hpreserved := (RecordTable.preserves_prepare (R := R) .installCoreTables
      (P := fun v => v.Coherent ∧ CoreRecords _ initial v.records)).exec (w := w) ⟨hw, h⟩
    rw [hexec] at hpreserved
    exact Or.inl (reads_reconcileCores (List.Subset.refl _) hpreserved.1 hpreserved.2 e he)

end Attempts

end Installation

/-! ## Attempts -/

/-- An attempt to install the core tables: which statements fail in it, and whether it comes after a
new start, with nothing in memory. -/
structure Attempt {σ : Type} (naming : TableNaming) (records : σ → RecordMap) where
  db : Database σ
  table : RecordTable naming db
  same : table.records = records
  fresh : Bool := false

namespace Attempt

variable {σ : Type} {naming : TableNaming} {records : σ → RecordMap}

def start (a : Attempt naming records) (w : World σ) : World σ :=
  if a.fresh then { w with caches := .empty } else w

def exec (a : Attempt naming records) (w : World σ) : Except StoreError Unit × World σ :=
  (CoreTables.install naming).exec a.db (a.start w)

/-- The statements that are sent and what is done in memory. -/
def performed (a : Attempt naming records) (w : World σ) : List Effect :=
  (CoreTables.install naming).run.performed a.db (a.start w)

def after (w : World σ) (a : Attempt naming records) : World σ := (a.exec w).2

/-- Memory is coherent, and of the record of each core table something holds. -/
def Ready (records : σ → RecordMap) (p : String × TableSchema → Option Row → Prop)
    (initial : RecordMap) (w : World σ) : Prop :=
  StoreView.Coherent ⟨records w.database, w.caches.schema?⟩ ∧
    CoreRecords p initial (records w.database)

variable {p : String × TableSchema → Option Row → Prop} {initial : RecordMap} {w : World σ}

theorem ready_start (a : Attempt naming records) (h : Ready records p initial w) :
    Ready records p initial (a.start w) := by
  unfold start
  split
  · exact ⟨fun _ _ hcached => (nomatch hcached), h.2⟩
  · exact h

theorem ready_after
    (hp : ∀ entry ∈ coreTables, ∀ record, Holds record entry.2 → p entry record)
    (a : Attempt naming records) (h : Ready records p initial w) :
    Ready records p initial (after w a) := by
  have hstart := a.ready_start h
  obtain ⟨db, R, rfl, fresh⟩ := a
  exact (preserves_installation (R := R) hp).exec hstart

theorem ready_attempts
    (hp : ∀ entry ∈ coreTables, ∀ record, Holds record entry.2 → p entry record)
    (attempts : List (Attempt naming records)) (h : Ready records p initial w) :
    Ready records p initial (attempts.foldl after w) := by
  induction attempts generalizing w with
  | nil => exact h
  | cons a attempts ih => exact ih (ready_after hp a h)

/-- Where nothing fails all core tables are brought to their shape. -/
theorem succeeds (a : Attempt naming records) (hfree : a.table.FailsOnly False)
    (h : Ready records (fun _ => Readable) initial w) : ∃ w', a.exec w = (.ok (), w') ∧
      Ready records (fun entry record => Holds record entry.2) initial w' := by
  have hstart := a.ready_start h
  obtain ⟨db, R, rfl, fresh⟩ := a
  obtain ⟨_, w', hexec, hready⟩ := (moves_installation hfree hstart.2).succeeds hstart.1
  exact ⟨w', hexec, hready⟩

/-- Where everything is there nothing is written. -/
theorem only_reads (a : Attempt naming records)
    (h : Ready records (fun entry record => Holds record entry.2) initial w) :
    ∀ e ∈ a.performed w,
      e.Reads ∨ e = .execute { sql := Definition.createMetadataTable naming } := by
  have hstart := a.ready_start h
  obtain ⟨db, R, rfl, fresh⟩ := a
  exact reads_installation hstart.1 hstart.2

end Attempt

/-- Some attempts stop wherever they do, then one meets no failure: it brings every core table to
its shape and leaves all other records as they were at first. Every attempt after it, however many
there are in between, only reads, but for the statement that creates the metadata table where it is
missing. -/
theorem core_installation_resumes {σ : Type} {naming : TableNaming} {records : σ → RecordMap}
    (w₀ : World σ) (hcoherent : ∀ table schema, w₀.caches.schema? table = some schema →
      ∃ record, records w₀.database table = some record ∧ Records.decode record = .ok schema)
    (hreadable : ∀ entry ∈ coreTables, Readable (records w₀.database entry.1))
    (earlier : List (Attempt naming records)) (free : Attempt naming records)
    (hfree : free.table.FailsOnly False) :
    ∃ w, free.exec (earlier.foldl Attempt.after w₀) = (.ok (), w) ∧
      (∀ entry ∈ coreTables, Holds (records w.database entry.1) entry.2) ∧
      (∀ table, (∀ entry ∈ coreTables, entry.1 ≠ table) →
        records w.database table = records w₀.database table) ∧
      ∀ (later : List (Attempt naming records)) (next : Attempt naming records),
        (∀ e ∈ next.performed (later.foldl Attempt.after w),
          e.Reads ∨ e = .execute { sql := Definition.createMetadataTable naming }) ∧
        (next.table.FailsOnly False →
          (next.exec (later.foldl Attempt.after w)).1 = .ok ()) := by
  have hinitial : Attempt.Ready records (fun _ => Readable) (records w₀.database) w₀ :=
    ⟨hcoherent, hreadable, fun _ _ => rfl⟩
  have hearlier := Attempt.ready_attempts (fun _ _ _ hholds => hholds.readable) earlier hinitial
  obtain ⟨w, hexec, hready⟩ := free.succeeds hfree hearlier
  refine ⟨w, hexec, hready.2.core, hready.2.others, fun later next => ?_⟩
  have hlater := Attempt.ready_attempts (fun _ _ _ hholds => hholds) later hready
  refine ⟨next.only_reads hlater, fun hnext => ?_⟩
  obtain ⟨_, hexec', _⟩ := next.succeeds hnext
    ⟨hlater.1, hlater.2.mono fun _ _ _ hholds => hholds.readable⟩
  rw [hexec']

def scriptedAttempt (failing fresh : Bool) :
    Attempt {} (fun b : Backend => b.records.get?) where
  db := scriptedUnder {} failing
  table := scriptedRecords {} failing
  same := rfl
  fresh

/-- The first attempt stops between a table and its record, the next ones come after new starts. -/
theorem core_installation_resumes_stopped :
    ((scriptedAttempt true false).exec unrecordable).1.toBool = false ∧
    ∃ w, (scriptedAttempt false true).exec
        ([scriptedAttempt true false].foldl Attempt.after unrecordable) = (.ok (), w) ∧
      (∀ entry ∈ coreTables, Holds (w.database.records.get? entry.1) entry.2) ∧
      ((scriptedAttempt false true).exec w).1 = .ok () := by
  have hstops : ((scriptedAttempt true false).exec unrecordable).1.toBool = false := by
    decide +kernel
  have hempty : ∀ entry ∈ coreTables, Readable (unrecordable.database.records.get? entry.1) :=
    fun _ _ => RecordTable.readable_none
  have hfree : (scriptedAttempt false true).table.FailsOnly False := scripted_failsOnly {}
  obtain ⟨w, hexec, hholds, _, hlater⟩ := @core_installation_resumes Backend {}
    (fun b => b.records.get?) unrecordable (fun _ _ h => nomatch h) hempty
    [scriptedAttempt true false] (scriptedAttempt false true) hfree
  exact ⟨hstops, w, hexec, hholds, (hlater [] (scriptedAttempt false true)).2 hfree⟩

end ContentTables
