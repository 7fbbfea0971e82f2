import ContentTables.Proofs.Store.RecordText
import ContentTables.Proofs.Store.Refusals
import ContentTables.Proofs.Store.SchemaReads

/-!
# Schemas kept in memory agree with the records

Any number of look-ups, new records, replaced records and dropped records run at the same time. A
write forgets the schemas of its keys before it and once more behind it.

* `Program.EndsForgetting`, `Program.WritesForget` : nothing is left to do but to forget some schemas, and
  this is so behind every write;
* `RecordCall`, `RecordSystem` : the calls and the system that they make up; a write concerns the
  records of its keys only (`Timeline.WritesRecords`);
* `RecordSystem.Waiting` : a record has been written, and a schema has yet to be forgotten again;
* `RecordSystem.Consistent` : the invariant. Every thread keeps to the `schemaDiscipline`, and since
  a schema was forgotten last its record has changed only by writes that have yet to forget it;
* `Consistent.advance`, `Consistent.start`, `Consistent.steps` : one step of a thread, a new call,
  and any number of steps preserve it;
* `cached_schema_recorded` : what this means for the schemas in memory.
-/

namespace ContentTables

variable {α β : Type}

/-! ## Forgetting behind a write -/

namespace Program

/-- The program forgets these schemas in this order, and ends. -/
def EndsForgetting : List String → Program α → Prop
  | [], p => ∃ a, p = .done a
  | table :: tables, p => ∃ next, p = .perform (.forgetSchema table) next ∧ (next ()).EndsForgetting tables

/-- What has to follow an effect. -/
def ForgetsBehindWrite (keys : List String) : (e : Effect) → (e.Answer → Program α) → Prop
  | .execute _, next => ∀ written, ∃ tables, (next (.ok written)).EndsForgetting tables ∧ keys ⊆ tables
  | _, _ => True

def WritesForget (keys : List String) : Program α → Prop
  | .done _ => True
  | .perform e next => ForgetsBehindWrite keys e next ∧ ∀ a, (next a).WritesForget keys

variable {keys tables : List String}

/-- The result does not matter. -/
theorem EndsForgetting.bind {p : Program α} {f : α → Program β} (h : p.EndsForgetting tables)
    (hf : ∀ a, ∃ b, f a = .done b) : (p.bind f).EndsForgetting tables := by
  induction tables generalizing p with
  | nil =>
    obtain ⟨a, rfl⟩ := h
    exact hf a
  | cons table rest ih =>
    obtain ⟨next, rfl, hnext⟩ := h
    exact ⟨fun a => (next a).bind f, rfl, ih hnext⟩

theorem WritesForget.bind {p : Program α} {f : α → Program β} (h : p.WritesForget keys)
    (hf : ∀ a, ∃ b, f a = .done b) : (p.bind f).WritesForget keys := by
  induction p with
  | done a =>
    obtain ⟨b, hb⟩ := hf a
    show (f a).WritesForget keys
    rw [hb]
    exact trivial
  | perform e next ih =>
    refine ⟨?_, fun a => ih a (h.2 a)⟩
    cases e with
    | execute s =>
      intro written
      obtain ⟨tables, hforgets, hkeys⟩ := h.1 written
      exact ⟨tables, hforgets.bind hf, hkeys⟩
    | _ => trivial

theorem OnlyReads.writesForget {p : Program α} (h : p.OnlyReads) : p.WritesForget keys := by
  induction p with
  | done a => exact trivial
  | perform e next ih =>
    refine ⟨?_, fun a => ih a (h.2 a)⟩
    cases e with
    | execute s => exact h.1.elim
    | _ => trivial

theorem EndsForgetting.writesForget {p : Program α} (h : p.EndsForgetting tables) : p.WritesForget keys := by
  induction tables generalizing p with
  | nil =>
    obtain ⟨a, rfl⟩ := h
    exact trivial
  | cons table rest ih =>
    obtain ⟨next, rfl, hnext⟩ := h
    exact ⟨trivial, fun _ => ih hnext⟩

end Program

namespace Operation

variable {keys tables : List String}

def EndsForgetting (tables : List String) (x : Operation α) : Prop := x.run.EndsForgetting tables

def WritesForget (keys : List String) (x : Operation α) : Prop := x.run.WritesForget keys

theorem endsForgetting_forget (table : String) : (Records.forget table).EndsForgetting [table] :=
  ⟨_, rfl, _, rfl⟩

theorem EndsForgetting.cons {table : String} {f : Unit → Operation α} (h : (f ()).EndsForgetting tables) :
    (Records.forget table >>= f).EndsForgetting (table :: tables) :=
  ⟨_, rfl, h⟩

theorem writesForget_forget_bind {table : String} {f : Unit → Operation α}
    (h : (f ()).WritesForget keys) : (Records.forget table >>= f).WritesForget keys :=
  ⟨trivial, fun _ => h⟩

/-- A statement that fails ends the operation. -/
theorem writesForget_execute_bind {s : Statement} {f : Written → Operation α}
    (h : ∀ written, (f written).EndsForgetting tables) (hkeys : keys ⊆ tables) :
    (execute s >>= f).WritesForget keys := by
  refine ⟨fun written => ⟨tables, h written, hkeys⟩, fun answer => ?_⟩
  cases answer with
  | ok written => exact (h written).writesForget
  | error fault => exact trivial

end Operation

open Operation

theorem writesForget_put (naming : TableNaming) (table : String) (schema : TableSchema) :
    (Records.put naming table schema).WritesForget [table] := by
  unfold Records.put
  refine writesForget_forget_bind ?_
  exact writesForget_execute_bind (fun _ => endsForgetting_forget table) (List.Subset.refl _)

theorem writesForget_replace (naming : TableNaming) (key table : String) (schema : TableSchema) :
    (Records.replace naming key table schema).WritesForget [key, table] := by
  unfold Records.replace
  refine writesForget_forget_bind (writesForget_forget_bind ?_)
  exact writesForget_execute_bind (fun _ => (endsForgetting_forget table).cons) (List.Subset.refl _)

theorem writesForget_drop (naming : TableNaming) (table : String) :
    (Records.drop naming table).WritesForget [table] := by
  unfold Records.drop
  refine writesForget_forget_bind ?_
  exact writesForget_execute_bind (fun _ => endsForgetting_forget table) (List.Subset.refl _)

/-! ## Calls -/

inductive RecordCall where
  | find (table : String)
  | put (table : String) (schema : TableSchema)
  /-- The record of the key becomes one of the table, which may be the same. -/
  | replace (key table : String) (schema : TableSchema)
  | drop (table : String)

namespace RecordCall

/-- The tables whose records the call writes. -/
def keys : RecordCall → List String
  | .find _ => []
  | .put table _ => [table]
  | .replace key table _ => [key, table]
  | .drop table => [table]

/-- A look-up ends with what it found, a write with nothing. -/
def operation (naming : TableNaming) : RecordCall → Operation (Option TableSchema)
  | .find table => Records.find? naming table
  | .put table schema => do
    Records.put naming table schema
    pure none
  | .replace key table schema => do
    Records.replace naming key table schema
    pure none
  | .drop table => do
    Records.drop naming table
    pure none

def program (naming : TableNaming) (call : RecordCall) :
    Program (Except StoreError (Option TableSchema)) :=
  (call.operation naming).run

theorem writesForget_program (naming : TableNaming) (call : RecordCall) :
    (call.program naming).WritesForget call.keys := by
  have hend : ∀ {x : Operation Unit}, x.WritesForget call.keys →
      (do
        x
        pure none : Operation (Option TableSchema)).WritesForget call.keys := by
    intro x hx
    refine Program.WritesForget.bind hx fun result => ?_
    cases result with
    | ok _ => exact ⟨_, rfl⟩
    | error e => exact ⟨_, rfl⟩
  cases call with
  | find table => exact (onlyReads_find? naming table).writesForget
  | put table schema => exact hend (writesForget_put naming table schema)
  | replace key table schema => exact hend (writesForget_replace naming key table schema)
  | drop table => exact hend (writesForget_drop naming table)

theorem obeys_program (timeline : Timeline) (naming : TableNaming) (call : RecordCall)
    (v : SchemaView) :
    (call.program naming).Obeys (schemaDiscipline timeline naming) (fun _ _ => True) v := by
  have hend : ∀ {α : Type} {x : Operation α}, x.Keeps timeline naming v →
      Program.Obeys (schemaDiscipline timeline naming) (fun _ _ => True) x.run v :=
    fun hx => Program.Obeys.mono hx fun _ _ _ => trivial
  have hwrite : ∀ {x : Operation Unit}, x.Keeps timeline naming v →
      (do
        x
        pure none : Operation (Option TableSchema)).Keeps timeline naming v :=
    fun hx => Obeys.bind hx fun _ w _ _ => keeps_pure timeline naming none w
  cases call with
  | find table => exact hend (keeps_find? timeline naming table v)
  | put table schema => exact hend (hwrite (keeps_put timeline naming table schema v))
  | replace key table schema =>
    exact hend (hwrite (keeps_replace timeline naming key table schema v))
  | drop table => exact hend (hwrite (keeps_drop timeline naming table v))

end RecordCall

/-- The write at that time changes the records of these tables only. -/
def Timeline.WritesRecords (timeline : Timeline) (naming : TableNaming) (n : Nat)
    (keys : List String) : Prop :=
  ∀ table, table ∉ keys → timeline (n + 1) (Records.selectSchema naming table) =
    timeline n (Records.selectSchema naming table)

abbrev RecordThread := Thread RecordCall (Except StoreError (Option TableSchema))

abbrev RecordSystem := System RecordCall (Except StoreError (Option TableSchema))

namespace RecordSystem

variable (timeline : Timeline) (naming : TableNaming)

def Steps : RecordSystem → RecordSystem → Prop :=
  System.Steps timeline (RecordCall.program naming) fun n call =>
    timeline.WritesRecords naming n call.keys

/-- The thread has written, and all that is left of it is to forget schemas, this one among them. -/
def Waiting (s : RecordSystem) (i : Nat) (table : String) : Prop :=
  ∃ call rest tables, s.threads[i]? = some ⟨call, rest⟩ ∧ rest.EndsForgetting tables ∧ table ∈ tables

theorem not_waiting_of_done {s : RecordSystem} {table : String}
    (h : ∀ th ∈ s.threads, ∃ result, th.rest = .done result) (i : Nat) : ¬ s.Waiting i table := by
  rintro ⟨call, rest, tables, hi, hforgets, htable⟩
  obtain ⟨result, hdone⟩ := h _ (List.mem_of_getElem? hi)
  cases tables with
  | nil => exact absurd htable List.not_mem_nil
  | cons first tables =>
    obtain ⟨next, hperform, _⟩ := hforgets
    exact nomatch hperform.symm.trans hdone

/-- No call is under way, nothing has been written, and the schemas in memory are those of the
records. -/
structure Initial (s : RecordSystem) : Prop where
  threads : s.threads = []
  time : s.time = 0
  schemas : ∀ {table schema}, s.world.caches.schema? table = some schema →
    timeline.recorded naming s.time table = .ok schema

/-! ## The invariant -/

structure Consistent (s : RecordSystem) (floor : String → Nat) : Prop where
  coherent : SchemaView.Coherent timeline naming ⟨s.world, floor⟩
  obeyed : (schemaDiscipline timeline naming).Obeyed (fun _ _ _ _ => True) s.threads
    ⟨s.world, floor⟩
  forgets : ∀ (i : Nat) (th : RecordThread), s.threads[i]? = some th →
    th.rest.WritesForget th.call.keys
  settled : ∀ table n, floor table ≤ n → n < s.time → (∃ i, s.Waiting i table) ∨
    timeline (n + 1) (Records.selectSchema naming table) =
      timeline n (Records.selectSchema naming table)

variable {timeline naming} {s s' : RecordSystem} {floor floor' : String → Nat}

/-! ## One step -/

section Advance
variable {i : Nat} {call : RecordCall} {e : Effect}
  {next : e.Answer → Program (Except StoreError (Option TableSchema))} {a : e.Answer}
  {world : World Nat}

theorem Waiting.start {table : String} (h : s.Waiting i table) (call : RecordCall) :
    Waiting (s.start (RecordCall.program naming) call) i table := by
  obtain ⟨call', rest, tables, hi, hrest⟩ := h
  obtain ⟨hlt, _⟩ := List.getElem?_eq_some_iff.mp hi
  exact ⟨call', rest, tables, (List.getElem?_append_left hlt).trans hi, hrest⟩

/-- A thread goes on waiting until it forgets the schema. -/
theorem Waiting.advance (hthread : s.threads[i]? = some ⟨call, .perform e next⟩) {j : Nat}
    {table : String} (h : s.Waiting j table) :
    Waiting (s.advance i call world (next a)) j table ∨ e = .forgetSchema table := by
  obtain ⟨call', rest, tables, hj, hrest, htable⟩ := h
  by_cases hij : j = i
  · subst hij
    rw [hthread] at hj
    cases hj
    cases tables with
    | nil => exact absurd htable List.not_mem_nil
    | cons first tables =>
      obtain ⟨next', hperform, hnext⟩ := hrest
      cases hperform
      rcases List.mem_cons.mp htable with rfl | htable
      · exact Or.inr rfl
      · obtain ⟨hlt, _⟩ := List.getElem?_eq_some_iff.mp hthread
        exact Or.inl ⟨call, _, tables, List.getElem?_set_self hlt, hnext, htable⟩
  · refine Or.inl ⟨call', rest, tables, ?_, hrest, htable⟩
    show (s.threads.set i _)[j]? = _
    rw [List.getElem?_set_ne fun h => hij h.symm]
    exact hj

theorem floor_of_forgetSchema {v w : SchemaView} {table : String}
    {a : (Effect.forgetSchema table).Answer} (h : v.Performed timeline (.forgetSchema table) a w) :
    w.floor table = v.time := by
  obtain rfl : w = _ := h
  exact if_pos rfl

theorem floor_of_other {v w : SchemaView} {table : String} (he : e ≠ .forgetSchema table)
    (h : v.Performed timeline e a w) : w.floor table = v.floor table := by
  cases e with
  | execute st =>
    cases a with
    | error fault =>
      obtain rfl : w = v := h
      rfl
    | ok written =>
      obtain rfl : w = _ := h
      rfl
  | fetch st =>
    cases a with
    | error fault =>
      obtain rfl : w = v := h
      rfl
    | ok rows => exact congrFun h.2 table
  | forgetSchema t =>
    obtain rfl : w = _ := h
    exact if_neg fun ht : table = t => he (ht ▸ rfl)
  | _ => exact congrFun h.2 table

/-- Any effect but a write is performed as the world answers it, and takes no time. -/
theorem performed_answer (he : ∀ st, e ≠ .execute st) (world : World Nat) (floor : String → Nat) :
    (∃ floor', SchemaView.Performed timeline ⟨world, floor⟩ e
      (world.answer timeline.database e).1 ⟨(world.answer timeline.database e).2, floor'⟩) ∧
      (world.answer timeline.database e).2.database = world.database := by
  cases e with
  | execute st => exact absurd rfl (he st)
  | forgetSchema table => exact ⟨⟨_, rfl⟩, rfl⟩
  | _ => exact ⟨⟨floor, rfl, rfl⟩, rfl⟩

/-- The time that an effect takes, if any, has to be accounted for. -/
theorem Consistent.advance (h : Consistent timeline naming s floor)
    (hthread : s.threads[i]? = some ⟨call, .perform e next⟩)
    (heffect : SchemaView.Performed timeline ⟨s.world, floor⟩ e a ⟨world, floor'⟩)
    (hsettled : ∀ table n, s.time ≤ n → n < world.database →
      Waiting (s.advance i call world (next a)) i table ∨
        timeline (n + 1) (Records.selectSchema naming table) =
          timeline n (Records.selectSchema naming table)) :
    Consistent timeline naming (s.advance i call world (next a)) floor' := by
  obtain ⟨hcoherent, _, hobeyed⟩ := h.obeyed.of_effect h.coherent hthread heffect
  refine ⟨hcoherent, hobeyed, fun j th hj => ?_, fun table n hfloor hn => ?_⟩
  · rcases thread_of_set hj with ⟨_, hj⟩ | ⟨rfl, rfl⟩
    · exact h.forgets j th hj
    · exact (h.forgets j _ hthread).2 a
  · by_cases hnew : s.time ≤ n
    · exact (hsettled table n hnew hn).imp_left fun h => ⟨i, h⟩
    · by_cases he : e = .forgetSchema table
      · -- the schema of the table is forgotten just now
        subst he
        have hmoved : floor' table = s.time := floor_of_forgetSchema heffect
        omega
      · have hold : floor table = floor' table := (floor_of_other he heffect).symm
        rcases h.settled table n (by omega) (by omega) with ⟨j, hj⟩ | hsame
        · rcases hj.advance hthread with hj | hforget
          · exact Or.inl ⟨j, hj⟩
          · exact absurd hforget he
        · exact Or.inr hsame

end Advance

/-! ## Any number of steps -/

theorem Consistent.start (h : Consistent timeline naming s floor) (call : RecordCall) :
    Consistent timeline naming (s.start (RecordCall.program naming) call) floor := by
  refine ⟨h.coherent, ?_, fun i th hi => ?_, fun table n hfloor hn => ?_⟩
  · exact Discipline.Obeyed.start h.obeyed (RecordCall.obeys_program timeline naming call _)
  · rcases thread_of_append hi with hi | ⟨_, rfl⟩
    · exact h.forgets i th hi
    · exact RecordCall.writesForget_program naming call
  · exact (h.settled table n hfloor hn).imp_left fun ⟨i, hi⟩ => ⟨i, hi.start call⟩

theorem Consistent.step (h : Consistent timeline naming s floor)
    (hstep : System.Step timeline (RecordCall.program naming)
      (fun n call => timeline.WritesRecords naming n call.keys) s s') :
    ∃ floor', Consistent timeline naming s' floor' := by
  -- most steps take no time
  have hnone : ∀ {P : Nat → Prop} {world : World Nat}, world.database = s.time →
      ∀ n, s.time ≤ n → n < world.database → P n :=
    fun hworld n hn hn' => absurd hn' (Nat.not_lt.mpr (hworld ▸ hn))
  cases hstep with
  | start call => exact ⟨_, h.start call⟩
  | answer hthread hwrite =>
    obtain ⟨⟨floor', hperformed⟩, htime⟩ := @performed_answer timeline _ hwrite s.world floor
    exact ⟨floor', h.advance hthread hperformed fun _ => hnone htime⟩
  | fetchFails hthread fault => exact ⟨floor, h.advance hthread rfl fun _ => hnone rfl⟩
  | executeFails hthread fault => exact ⟨floor, h.advance hthread rfl fun _ => hnone rfl⟩
  | @write i call st next hthread hwrites written =>
    refine ⟨floor, h.advance hthread rfl fun table n hn hn' => ?_⟩
    obtain rfl : n = s.time := by
      change n < s.time + 1 at hn'
      omega
    by_cases htable : table ∈ call.keys
    · -- the writer has to forget the schemas of its keys now
      obtain ⟨tables, hforgets, hkeys⟩ := (h.forgets i _ hthread).1 written
      obtain ⟨hlt, _⟩ := List.getElem?_eq_some_iff.mp hthread
      exact Or.inl ⟨call, _, tables, List.getElem?_set_self hlt, hforgets, hkeys htable⟩
    · exact Or.inr (hwrites table htable)

theorem Consistent.steps (h : Consistent timeline naming s floor)
    (hsteps : Steps timeline naming s s') : ∃ floor', Consistent timeline naming s' floor' := by
  induction hsteps with
  | refl => exact ⟨floor, h⟩
  | tail _ hstep ih =>
    obtain ⟨floor', h'⟩ := ih
    exact h'.step hstep

theorem Initial.consistent (h : Initial timeline naming s) :
    Consistent timeline naming s fun _ => 0 := by
  have hnone : ∀ {P : Prop} {i : Nat} {th : RecordThread}, s.threads[i]? = some th → P := by
    intro P i th hi
    rw [h.threads] at hi
    exact nomatch hi
  refine ⟨⟨fun _ => Nat.zero_le _, fun hcached => ?_⟩, fun _ _ => hnone, fun _ _ => hnone,
    fun _ _ _ hn => ?_⟩
  · exact ⟨s.time, Nat.zero_le _, Nat.le_refl _, h.schemas hcached⟩
  · rw [h.time] at hn
    exact absurd hn (Nat.not_lt_zero _)

/-! ## Schemas in memory -/

/-- Without a write that has yet to forget the schema, the record is as it was at the floor. -/
theorem Consistent.recorded_eq (h : Consistent timeline naming s floor) {table : String}
    (hquiet : ∀ i, ¬ s.Waiting i table) {n : Nat} (hlow : floor table ≤ n) (hhigh : n ≤ s.time) :
    timeline n (Records.selectSchema naming table) =
      timeline s.time (Records.selectSchema naming table) := by
  obtain ⟨k, hk⟩ := Nat.exists_eq_add_of_le hhigh
  induction k generalizing n with
  | zero => rw [hk, Nat.add_zero]
  | succ k ih =>
    have hn : n < s.time := by omega
    rw [← ih (Nat.le_succ_of_le hlow) hn (by omega)]
    rcases h.settled table n hlow hn with ⟨i, hi⟩ | hsame
    · exact absurd hi (hquiet i)
    · exact hsame.symm

/-- While no write of its record has yet to forget it once more, the schema kept for a table is the
one in the record of the table, and there is such a record. -/
theorem cached_schema_recorded (timeline : Timeline) (naming : TableNaming) (s₀ : RecordSystem)
    (h₀ : Initial timeline naming s₀) (s : RecordSystem) (hs : Steps timeline naming s₀ s)
    (table : String) (hquiet : ∀ i, ¬ s.Waiting i table) (schema : TableSchema)
    (hcached : s.world.caches.schema? table = some schema) :
    ∃ record, (timeline s.time (Records.selectSchema naming table)).head? = some record ∧
      Records.decode record = .ok schema := by
  obtain ⟨floor, h⟩ := h₀.consistent.steps hs
  obtain ⟨n, hlow, hhigh, hrecorded⟩ := h.coherent.schemas hcached
  unfold Timeline.recorded at hrecorded
  rw [h.recorded_eq hquiet hlow hhigh] at hrecorded
  cases hhead : (timeline s.time (Records.selectSchema naming table)).head? with
  | none =>
    rw [hhead] at hrecorded
    exact nomatch hrecorded
  | some record =>
    rw [hhead] at hrecorded
    exact ⟨record, rfl, hrecorded⟩

/-! ## One run -/

open Records (numbersTable)

theorem decode_numbersTable : Records.decode (Records.encode numbersTable) = .ok numbersTable :=
  Records.decode_encode_of_stable Records.stable_numbersTable

/-- The record of `t` has no columns at first, and those of `numbersTable` after the first write. -/
def onceRetyped : Timeline := fun n s =>
  if s.params.head?.bind Json.str? = some "t" then
    [if n = 0 then ∅ else Records.encode numbersTable]
  else []

theorem onceRetyped_writes (n : Nat) {keys : List String} (hkeys : "t" ∈ keys) :
    onceRetyped.WritesRecords {} n keys := by
  intro table htable
  have hother : some table ≠ some "t" := fun h => htable (Option.some.inj h ▸ hkeys)
  have hparams : (Records.selectSchema {} table).params.head?.bind Json.str? = some table := rfl
  unfold onceRetyped
  rw [hparams, if_neg hother, if_neg hother]

theorem onceRetyped_initial : Initial onceRetyped {} ⟨coldWorld 0, []⟩ where
  threads := rfl
  time := rfl
  schemas h := nomatch h

def retypeT : RecordCall := .replace "t" "t" numbersTable

/-- A look-up has read the record, and has yet to keep the schema. -/
def looked : RecordSystem :=
  let asked : RecordSystem := System.start (RecordCall.program {}) (.find "t") ⟨coldWorld 0, []⟩
  ((asked.turn onceRetyped 0).turn onceRetyped 0).turn onceRetyped 0

/-- The record is replaced meanwhile: the schema is forgotten twice, the record written, and the
schema forgotten twice again. -/
def retyped : RecordSystem :=
  let asked := looked.start (RecordCall.program {}) retypeT
  ((((asked.turn onceRetyped 1).turn onceRetyped 1).turn onceRetyped 1).turn onceRetyped 1).turn
    onceRetyped 1

/-- The first look-up may not keep what it read, and another one reads the record. -/
def lookedAgain : RecordSystem :=
  let asked := (retyped.turn onceRetyped 0).start (RecordCall.program {}) (.find "t")
  ((asked.turn onceRetyped 2).turn onceRetyped 2).turn onceRetyped 2

/-- The second look-up keeps the schema. -/
def kept : RecordSystem := lookedAgain.turn onceRetyped 2

theorem steps_turn_of_find {s : RecordSystem} {i : Nat} {call : RecordCall} {e : Effect}
    {next : e.Answer → Program (Except StoreError (Option TableSchema))}
    (hthread : s.threads[i]? = some ⟨call, .perform e next⟩) (he : ∀ st, e ≠ .execute st) :
    Steps onceRetyped {} s (s.turn onceRetyped i) :=
  .single (System.step_turn_of_read hthread he)

theorem steps_turn_of_retype {s : RecordSystem} {i : Nat} {th : RecordThread}
    (hth : s.threads[i]? = some th) (hcall : th.call = retypeT) :
    Steps onceRetyped {} s (s.turn onceRetyped i) := by
  refine System.steps_turn fun th' hth' => ?_
  obtain rfl : th = th' := Option.some.inj (hth.symm.trans hth')
  rw [hcall]
  exact onceRetyped_writes s.time List.mem_cons_self

theorem steps_looked : Steps onceRetyped {} ⟨coldWorld 0, []⟩ looked := by
  unfold looked
  refine .trans (.single (.start _ (.find "t"))) ?_
  refine .trans ?_ (steps_turn_of_find rfl (by nofun))
  refine .trans ?_ (steps_turn_of_find rfl (by nofun))
  exact steps_turn_of_find rfl (by nofun)

theorem steps_retyped : Steps onceRetyped {} looked retyped := by
  unfold retyped
  refine .trans (.single (.start _ retypeT)) ?_
  refine .trans ?_ (steps_turn_of_retype rfl rfl)
  refine .trans ?_ (steps_turn_of_retype rfl rfl)
  refine .trans ?_ (steps_turn_of_retype rfl rfl)
  refine .trans ?_ (steps_turn_of_retype rfl rfl)
  exact steps_turn_of_retype rfl rfl

theorem steps_lookedAgain : Steps onceRetyped {} retyped lookedAgain := by
  have hrefused : Steps onceRetyped {} retyped (retyped.turn onceRetyped 0) :=
    steps_turn_of_find rfl (by nofun)
  unfold lookedAgain
  refine .trans hrefused ?_
  refine .trans (.single (.start _ (.find "t"))) ?_
  refine .trans ?_ (steps_turn_of_find rfl (by nofun))
  refine .trans ?_ (steps_turn_of_find rfl (by nofun))
  exact steps_turn_of_find rfl (by nofun)

theorem lookedAgain_threads : lookedAgain.threads = [⟨.find "t", .done (.ok (some ∅))⟩,
    ⟨retypeT, .done (.ok none)⟩, ⟨.find "t", .perform (.keepSchema "t" numbersTable 4) fun _ =>
      .done (.ok (some numbersTable))⟩] := by
  have hread : lookedAgain.threads = [⟨.find "t", .done (.ok (some ∅))⟩,
      ⟨retypeT, .done (.ok none)⟩, ⟨.find "t", (do
        let schema ← Operation.ofExcept (Records.decode (Records.encode numbersTable))
        let _ ← Operation.ask (.keepSchema "t" schema 4)
        pure (some schema) : Operation (Option TableSchema)).run⟩] := rfl
  rw [hread, decode_numbersTable]
  rfl

theorem steps_kept : Steps onceRetyped {} lookedAgain kept :=
  steps_turn_of_find (congrArg (·[2]?) lookedAgain_threads) nofun

theorem kept_eq : kept = lookedAgain.advance 2 (.find "t")
    (lookedAgain.world.answer onceRetyped.database (.keepSchema "t" numbersTable 4)).2
    (.done (.ok (some numbersTable))) := by
  have hthread := congrArg (·[2]?) lookedAgain_threads
  unfold kept System.turn
  rw [hthread]
  rfl

/-- The record of `t` is replaced between two look-ups. What the first one read is not kept. -/
theorem cached_schema_recorded_retyped :
    (retyped.turn onceRetyped 0).world.caches.schema? "t" = none ∧
      kept.world.caches.schema? "t" = some numbersTable ∧ (∀ i, ¬ kept.Waiting i "t") ∧
      ∃ record, (onceRetyped kept.time (Records.selectSchema {} "t")).head? = some record ∧
        Records.decode record = .ok numbersTable := by
  have hcached : kept.world.caches.schema? "t" = some numbersTable := by
    rw [kept_eq]
    rfl
  have hquiet : ∀ i, ¬ kept.Waiting i "t" := by
    have hthreads : kept.threads = [⟨.find "t", .done (.ok (some ∅))⟩,
        ⟨retypeT, .done (.ok none)⟩, ⟨.find "t", .done (.ok (some numbersTable))⟩] := by
      rw [kept_eq]
      unfold System.advance
      simp only
      rw [lookedAgain_threads, List.set_cons_succ, List.set_cons_succ, List.set_cons_zero]
    refine not_waiting_of_done fun th hth => ?_
    rw [hthreads] at hth
    simp only [List.mem_cons, List.not_mem_nil, or_false] at hth
    rcases hth with rfl | rfl | rfl
    · exact ⟨_, rfl⟩
    · exact ⟨_, rfl⟩
    · exact ⟨_, rfl⟩
  refine ⟨rfl, hcached, hquiet, ?_⟩
  exact cached_schema_recorded onceRetyped {} _ onceRetyped_initial kept
    (((steps_looked.trans steps_retyped).trans steps_lookedAgain).trans steps_kept) "t" hquiet
    numbersTable hcached

end RecordSystem

end ContentTables
