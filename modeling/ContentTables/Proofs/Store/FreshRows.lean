import ContentTables.Proofs.Store.Forgetting
import ContentTables.Proofs.Store.RowReads

/-!
# Rows kept in memory are never stale

Any number of memoized reads, inserts, updates and deletes run at the same time.

* `RowCall`, `RowSystem` : the calls and the system that they make up; a write concerns the rows of
  its own table only, and no record (`Timeline.WritesTable`);
* `RowSystem.Writing` : a write has succeeded, and has yet to forget the rows of its table;
* `RowSystem.Consistent` : the invariant. Every thread keeps to the `rowsDiscipline`, and since a
  table was forgotten last its rows have changed only by writes that have yet to forget them;
* `Consistent.advance`, `Consistent.start`, `Consistent.steps` : one step of a thread, a new call,
  and any number of steps preserve it;
* `memoized_rows_fresh` : what this means for the rows in memory and for the reads.
-/

namespace ContentTables

inductive RowCall where
  | select (q : SelectQuery)
  | insert (now table : String) (row : Row)
  | update (table : String) (row : Row) (condition : Condition)
  | delete (table : String) (condition : Condition) (offset limit : Option UInt64)

namespace RowCall

def table : RowCall → String
  | .select q => q.table
  | .insert _ table _ => table
  | .update table _ _ => table
  | .delete table _ _ _ => table

/-- A read ends with rows, a write with none. -/
def operation (naming : TableNaming) : RowCall → Operation (Option QueryResult)
  | .select q => do pure (some (← Rows.selectCached naming q))
  | .insert now table row => do
    let _ ← Rows.insert naming now table row
    pure none
  | .update table row condition => do
    let _ ← Rows.update naming table row condition
    pure none
  | .delete table condition offset limit => do
    let _ ← Rows.delete naming table condition offset limit
    pure none

def program (naming : TableNaming) (call : RowCall) :
    Program (Except StoreError (Option QueryResult)) :=
  (call.operation naming).run

end RowCall

/-- The write at that time changes the answers for that table only, and no record. -/
structure Timeline.WritesTable (timeline : Timeline) (naming : TableNaming) (n : Nat)
    (table : String) : Prop where
  rows : ∀ q : SelectQuery, q.table ≠ table →
    timeline (n + 1) (q.statement naming) = timeline n (q.statement naming)
  records : ∀ t, timeline (n + 1) (Records.selectSchema naming t) =
    timeline n (Records.selectSchema naming t)

abbrev RowThread := Thread RowCall (Except StoreError (Option QueryResult))

abbrev RowSystem := System RowCall (Except StoreError (Option QueryResult))

namespace RowSystem

variable (timeline : Timeline) (naming : TableNaming)

def Steps : RowSystem → RowSystem → Prop :=
  System.Steps timeline (RowCall.program naming) fun n call =>
    timeline.WritesTable naming n call.table

/-- The thread has written, and forgetting the rows of the table is what it does next. -/
def Writing (s : RowSystem) (i : Nat) (table : String) : Prop :=
  ∃ call rest, s.threads[i]? = some ⟨call, .perform (.forgetRows table) rest⟩

/-- No call is under way, nothing has been written, the rows in memory are the answers of now, and
the schemas are those of the records. -/
structure Initial (s : RowSystem) : Prop where
  threads : s.threads = []
  time : s.time = 0
  rows : ∀ {table key result}, s.world.caches.rows? table key = some result →
    ∃ q, q.table = table ∧ q.cacheKey = key ∧ timeline.answer naming s.time q = .ok result
  schemas : ∀ {table schema}, s.world.caches.schema? table = some schema →
    timeline.recorded naming s.time table = .ok schema

/-! ## The invariant -/

/-- What the result of a call has to be: rows that the database gave at the base or later. -/
def Result (base : Nat) : RowCall → Except StoreError (Option QueryResult) → RowsView → Prop
  | .select q, result, v => ∀ rows, result = .ok (some rows) → ∃ n q', base ≤ n ∧ n ≤ v.time ∧
    q'.table = q.table ∧ q'.cacheKey = q.cacheKey ∧ timeline.answer naming n q' = .ok rows
  | _, _, _ => True

/-- The floors of the tables, and the floor that each thread found at its start. -/
structure Consistent (s : RowSystem) (floor : String → Nat) (base : Nat → Nat) : Prop where
  coherent : RowsView.Coherent timeline naming ⟨s.world, floor⟩
  obeyed : (rowsDiscipline timeline naming).Obeyed (fun i => Result timeline naming (base i))
    s.threads ⟨s.world, floor⟩
  forgets : ∀ (i : Nat) (th : RowThread), s.threads[i]? = some th → th.rest.ForgetsNext th.call.table
  settled : ∀ table n, floor table ≤ n → n < s.time → (∃ i, s.Writing i table) ∨
    ∀ q : SelectQuery, q.table = table →
      timeline (n + 1) (q.statement naming) = timeline n (q.statement naming)
  records : ∀ n < s.time, ∀ table, timeline (n + 1) (Records.selectSchema naming table) =
    timeline n (Records.selectSchema naming table)

/-- What a run leaves as it was: floors only rise, and a write that no longer has to forget its rows
has raised the floor of its table. -/
structure Follows (s : RowSystem) (floor : String → Nat) (base : Nat → Nat) (s' : RowSystem)
    (floor' : String → Nat) (base' : Nat → Nat) : Prop where
  time : s.time ≤ s'.time
  length : s.threads.length ≤ s'.threads.length
  floor : ∀ table, floor table ≤ floor' table
  base : ∀ i < s.threads.length, base' i = base i
  call : ∀ (i : Nat) (th : RowThread), s.threads[i]? = some th →
    ∃ rest, s'.threads[i]? = some ⟨th.call, rest⟩
  writing : ∀ i table, s.Writing i table → s'.Writing i table ∨ s.time ≤ floor' table

variable {timeline naming} {s s' s'' : RowSystem} {floor floor' floor'' : String → Nat}
  {base base' base'' : Nat → Nat}

theorem Follows.refl (s : RowSystem) (floor : String → Nat) (base : Nat → Nat) :
    Follows s floor base s floor base :=
  ⟨Nat.le_refl _, Nat.le_refl _, fun _ => Nat.le_refl _, fun _ _ => rfl, fun _ th h => ⟨th.rest, h⟩,
    fun _ _ h => Or.inl h⟩

theorem Follows.trans (h : Follows s floor base s' floor' base')
    (h' : Follows s' floor' base' s'' floor'' base'') : Follows s floor base s'' floor'' base'' where
  time := Nat.le_trans h.time h'.time
  length := Nat.le_trans h.length h'.length
  floor table := Nat.le_trans (h.floor table) (h'.floor table)
  base i hi := (h'.base i (Nat.lt_of_lt_of_le hi h.length)).trans (h.base i hi)
  call i th hi := by
    obtain ⟨rest, hrest⟩ := h.call i th hi
    exact h'.call i ⟨th.call, rest⟩ hrest
  writing i table hi := by
    rcases h.writing i table hi with hi' | hfloor
    · rcases h'.writing i table hi' with hi'' | hfloor
      · exact Or.inl hi''
      · exact Or.inr (Nat.le_trans h.time hfloor)
    · exact Or.inr (Nat.le_trans hfloor (h'.floor table))

/-! ## One step -/

section Advance
variable {i : Nat} {call : RowCall} {e : Effect}
  {next : e.Answer → Program (Except StoreError (Option QueryResult))} {a : e.Answer}
  {world : World Nat}

/-- Only the thread that performs an effect can stop having to forget. -/
theorem writing_advance (hthread : s.threads[i]? = some ⟨call, .perform e next⟩) {j : Nat}
    {table : String} (h : s.Writing j table)
    (rest : Program (Except StoreError (Option QueryResult))) :
    Writing (s.advance i call world rest) j table ∨ e = .forgetRows table := by
  obtain ⟨call', rest', hj⟩ := h
  by_cases hij : j = i
  · subst hij
    rw [hthread] at hj
    cases hj
    exact Or.inr rfl
  · refine Or.inl ⟨call', rest', ?_⟩
    show (s.threads.set i _)[j]? = _
    rw [List.getElem?_set_ne fun h => hij h.symm]
    exact hj

theorem floor_of_forgetRows {v w : RowsView} {table : String} {a : (Effect.forgetRows table).Answer}
    (h : v.Performed timeline naming (.forgetRows table) a w) : w.floor table = v.time := by
  obtain rfl : w = _ := h
  exact if_pos rfl

theorem floor_of_other {v w : RowsView} {table : String}
    (he : e ≠ .forgetRows table) (h : v.Performed timeline naming e a w) :
    w.floor table = v.floor table := by
  cases e with
  | execute st =>
    cases a with
    | error fault =>
      obtain rfl : w = v := h
      rfl
    | ok written =>
      obtain ⟨rfl, _⟩ := h
      rfl
  | fetch st =>
    cases a with
    | error fault =>
      obtain rfl : w = v := h
      rfl
    | ok rows => exact congrFun h.2 table
  | forgetRows t =>
    obtain rfl : w = _ := h
    exact if_neg fun ht : table = t => he (ht ▸ rfl)
  | _ => exact congrFun h.2 table

/-- Any effect but a write is performed as the world answers it, and takes no time. -/
theorem performed_answer (he : ∀ st, e ≠ .execute st) (world : World Nat) (floor : String → Nat) :
    (∃ floor', RowsView.Performed timeline naming ⟨world, floor⟩ e
      (world.answer timeline.database e).1 ⟨(world.answer timeline.database e).2, floor'⟩) ∧
      (world.answer timeline.database e).2.database = world.database := by
  cases e with
  | execute st => exact absurd rfl (he st)
  | forgetRows table => exact ⟨⟨_, rfl⟩, rfl⟩
  | _ => exact ⟨⟨floor, rfl, rfl⟩, rfl⟩

/-- The time that an effect takes, if any, has to be accounted for. -/
theorem Consistent.advance (h : Consistent timeline naming s floor base)
    (hthread : s.threads[i]? = some ⟨call, .perform e next⟩)
    (heffect : RowsView.Performed timeline naming ⟨s.world, floor⟩ e a ⟨world, floor'⟩)
    (hsettled : ∀ table n, s.time ≤ n → n < world.database →
      Writing (s.advance i call world (next a)) i table ∨ ∀ q : SelectQuery, q.table = table →
        timeline (n + 1) (q.statement naming) = timeline n (q.statement naming))
    (hrecords : ∀ n, s.time ≤ n → n < world.database → ∀ table,
      timeline (n + 1) (Records.selectSchema naming table) =
        timeline n (Records.selectSchema naming table)) :
    Consistent timeline naming (s.advance i call world (next a)) floor' base ∧
      Follows s floor base (s.advance i call world (next a)) floor' base := by
  obtain ⟨hcoherent, hlater, hobeyed⟩ := h.obeyed.of_effect h.coherent hthread heffect
  have hforgets := h.forgets i _ hthread
  refine ⟨⟨hcoherent, hobeyed, ?_, ?_, ?_⟩, ⟨hlater.time, ?_, hlater.floor, fun _ _ => rfl, ?_, ?_⟩⟩
  · intro j th hj
    rcases thread_of_set hj with ⟨_, hj⟩ | ⟨rfl, rfl⟩
    · exact h.forgets j th hj
    · exact hforgets.2 a
  · intro table n hfloor hn
    by_cases hnew : s.time ≤ n
    · exact (hsettled table n hnew hn).imp_left fun h => ⟨i, h⟩
    · by_cases he : e = .forgetRows table
      · -- the rows of the table are forgotten just now
        subst he
        have hmoved : floor' table = s.time := floor_of_forgetRows heffect
        omega
      · have hold : floor table = floor' table := (floor_of_other he heffect).symm
        rcases h.settled table n (by omega) (by omega) with ⟨j, hj⟩ | hsame
        · rcases writing_advance hthread hj (next a) with hj | hforget
          · exact Or.inl ⟨j, hj⟩
          · exact absurd hforget he
        · exact Or.inr hsame
  · intro n hn table
    by_cases hnew : s.time ≤ n
    · exact hrecords n hnew hn table
    · exact h.records n (by omega) table
  · exact Nat.le_of_eq (List.length_set ..).symm
  · intro j th hj
    show ∃ rest, (s.threads.set i _)[j]? = _
    by_cases hij : j = i
    · subst hij
      obtain rfl : _ = th := Option.some.inj (hthread.symm.trans hj)
      obtain ⟨hlt, _⟩ := List.getElem?_eq_some_iff.mp hj
      exact ⟨next a, List.getElem?_set_self hlt⟩
    · exact ⟨th.rest, (List.getElem?_set_ne fun h => hij h.symm).trans hj⟩
  · intro j table hj
    rcases writing_advance hthread hj (next a) with hj | rfl
    · exact Or.inl hj
    · exact Or.inr (Nat.le_of_eq (floor_of_forgetRows heffect).symm)

end Advance

/-! ## Any number of steps -/

section Programs
open Operation

theorem obeys_program_select (q : SelectQuery) {v : RowsView} {base : Nat}
    (hbase : base ≤ v.floor q.table) :
    (RowCall.program naming (.select q)).Obeys (rowsDiscipline timeline naming)
      (Result timeline naming base (.select q)) v := by
  have hread : (RowCall.operation naming (.select q)).Obeys (rowsDiscipline timeline naming)
      (fun rows w => ∃ result, rows = some result ∧ ∃ n q', base ≤ n ∧ n ≤ w.time ∧
        q'.table = q.table ∧ q'.cacheKey = q.cacheKey ∧ timeline.answer naming n q' = .ok result) v := by
    refine Obeys.bind (obeys_selectCached timeline naming q v) fun result w hresult _ => ?_
    obtain ⟨n, q', hlow, hhigh, hq'⟩ := hresult
    refine obeys_pure fun x _ hwx => ⟨result, rfl, n, q', ?_, ?_, hq'⟩
    · exact Nat.le_trans hbase hlow
    · exact Nat.le_trans hhigh hwx.time
  refine Program.Obeys.mono hread fun outcome w h rows hrows => ?_
  obtain ⟨result, hresult, hanswer⟩ := h _ hrows
  obtain rfl := Option.some.inj hresult
  exact hanswer

theorem obeys_program (call : RowCall) {v : RowsView} {base : Nat}
    (hbase : base ≤ v.floor call.table) :
    (call.program naming).Obeys (rowsDiscipline timeline naming)
      (Result timeline naming base call) v := by
  -- the result of a write is not specified
  have hwrite : ∀ {α : Type} {x : Operation α},
      x.Obeys (rowsDiscipline timeline naming) (fun _ _ => True) v →
      Program.Obeys (rowsDiscipline timeline naming) (fun _ _ => True)
        (do
          let _ ← x
          pure none : Operation (Option QueryResult)).run v := by
    intro α x hx
    have hend : (do
        let _ ← x
        pure none : Operation (Option QueryResult)).Obeys (rowsDiscipline timeline naming)
          (fun _ _ => True) v :=
      Obeys.bind hx fun _ _ _ _ => obeys_pure fun _ _ _ => trivial
    exact Program.Obeys.mono hend fun _ _ _ => trivial
  cases call with
  | select q => exact obeys_program_select q hbase
  | insert now table row => exact hwrite (obeys_insert timeline naming now table row v)
  | update table row condition => exact hwrite (obeys_update timeline naming table row condition v)
  | delete table condition offset limit =>
    exact hwrite (obeys_delete timeline naming table condition offset limit v)

theorem forgetsNext_program (call : RowCall) : (call.program naming).ForgetsNext call.table := by
  have hend : ∀ {α : Type} {x : Operation α} {f : α → Option QueryResult},
      x.ForgetsNext call.table → ForgetsNext call.table (do pure (f (← x))) :=
    fun hx => ForgetsNext.bind hx fun _ => forgetsNext_pure _
  cases call with
  | select q => exact hend (forgetsNext_selectCached naming q)
  | insert now table row => exact hend (forgetsNext_insert naming now table row)
  | update table row condition => exact hend (forgetsNext_update naming table row condition)
  | delete table condition offset limit =>
    exact hend (forgetsNext_delete naming table condition offset limit)

end Programs

/-- The base of a new call is the floor of its table. -/
theorem Consistent.start (h : Consistent timeline naming s floor base) (call : RowCall) :
    let base' := fun i => if i = s.threads.length then floor call.table else base i
    Consistent timeline naming (s.start (RowCall.program naming) call) floor base' ∧
      Follows s floor base (s.start (RowCall.program naming) call) floor base' := by
  intro base'
  have hkeep : ∀ {i : Nat} {th : RowThread}, s.threads[i]? = some th →
      (s.start (RowCall.program naming) call).threads[i]? = some th := by
    intro i th hi
    obtain ⟨hlt, _⟩ := List.getElem?_eq_some_iff.mp hi
    exact (List.getElem?_append_left hlt).trans hi
  have hbase : ∀ i < s.threads.length, base' i = base i :=
    fun i hi => if_neg (Nat.ne_of_lt hi)
  have hwriting : ∀ i table, s.Writing i table →
      Writing (s.start (RowCall.program naming) call) i table :=
    fun i table ⟨call', rest, hi⟩ => ⟨call', rest, hkeep hi⟩
  refine ⟨⟨h.coherent, ?_, ?_, ?_, h.records⟩, ⟨Nat.le_refl _, ?_, fun _ => Nat.le_refl _, hbase,
    fun _ th hi => ⟨th.rest, hkeep hi⟩, fun i table hi => Or.inl (hwriting i table hi)⟩⟩
  · refine Discipline.Obeyed.start (fun i th hi => ?_) ?_
    · obtain ⟨hlt, _⟩ := List.getElem?_eq_some_iff.mp hi
      rw [hbase i hlt]
      exact h.obeyed i th hi
    · show (call.program naming).Obeys _ (Result timeline naming (base' s.threads.length) call) _
      rw [show base' s.threads.length = floor call.table from if_pos rfl]
      exact obeys_program call (Nat.le_refl _)
  · intro i th hi
    rcases thread_of_append hi with hi | ⟨_, rfl⟩
    · exact h.forgets i th hi
    · exact forgetsNext_program call
  · intro table n hfloor hn
    exact (h.settled table n hfloor hn).imp_left fun ⟨i, hi⟩ => ⟨i, hwriting i table hi⟩
  · show s.threads.length ≤ (s.threads ++ [_]).length
    rw [List.length_append]
    exact Nat.le_add_right _ _

theorem Consistent.step (h : Consistent timeline naming s floor base)
    (hstep : System.Step timeline (RowCall.program naming)
      (fun n call => timeline.WritesTable naming n call.table) s s') :
    ∃ floor' base', Consistent timeline naming s' floor' base' ∧
      Follows s floor base s' floor' base' := by
  -- most steps take no time
  have hnone : ∀ {P : Nat → Prop} {world : World Nat}, world.database = s.time →
      ∀ n, s.time ≤ n → n < world.database → P n :=
    fun hworld n hn hn' => absurd hn' (Nat.not_lt.mpr (hworld ▸ hn))
  cases hstep with
  | start call => exact ⟨_, _, h.start call⟩
  | answer hthread hwrite =>
    obtain ⟨⟨floor', hperformed⟩, htime⟩ :=
      @performed_answer timeline naming _ hwrite s.world floor
    exact ⟨floor', base, h.advance hthread hperformed (fun _ => hnone htime) (hnone htime)⟩
  | fetchFails hthread fault =>
    exact ⟨floor, base, h.advance hthread rfl (fun _ => hnone rfl) (hnone rfl)⟩
  | executeFails hthread fault =>
    exact ⟨floor, base, h.advance hthread rfl (fun _ => hnone rfl) (hnone rfl)⟩
  | @write i call st next hthread hwrites written =>
    have hlast : ∀ {n}, s.time ≤ n → n < s.time + 1 → n = s.time := fun h h' => by omega
    refine ⟨floor, base, h.advance hthread ⟨rfl, hwrites.records⟩ ?_ ?_⟩
    · intro table n hn hn'
      obtain rfl := hlast hn hn'
      by_cases htable : table = call.table
      · -- the writer has to forget the rows of its table now
        subst htable
        obtain ⟨rest, hrest⟩ := (h.forgets i _ hthread).1 written
        obtain ⟨hlt, _⟩ := List.getElem?_eq_some_iff.mp hthread
        refine Or.inl ⟨call, rest, ?_⟩
        rw [← hrest]
        exact List.getElem?_set_self hlt
      · exact Or.inr fun q hq => hwrites.rows q fun hq' => htable (hq ▸ hq')
    · intro n hn hn' table
      obtain rfl := hlast hn hn'
      exact hwrites.records table

theorem Consistent.steps (h : Consistent timeline naming s floor base)
    (hsteps : Steps timeline naming s s') :
    ∃ floor' base', Consistent timeline naming s' floor' base' ∧
      Follows s floor base s' floor' base' := by
  induction hsteps with
  | refl => exact ⟨floor, base, h, Follows.refl s floor base⟩
  | tail _ hstep ih =>
    obtain ⟨floor', base', h', hfollows⟩ := ih
    obtain ⟨floor'', base'', h'', hfollows'⟩ := h'.step hstep
    exact ⟨floor'', base'', h'', hfollows.trans hfollows'⟩

theorem Initial.consistent (h : Initial timeline naming s) :
    Consistent timeline naming s (fun _ => 0) fun _ => 0 := by
  have hnone : ∀ {P : Prop} {i : Nat} {th : RowThread}, s.threads[i]? = some th → P := by
    intro P i th hi
    rw [h.threads] at hi
    exact nomatch hi
  refine ⟨⟨fun _ => Nat.zero_le _, fun hcached => ?_, h.schemas⟩, fun _ _ => hnone, fun _ _ => hnone,
    fun _ _ _ hn => ?_, fun _ hn => ?_⟩
  · obtain ⟨q, htable, hkey, hanswer⟩ := h.rows hcached
    exact ⟨s.time, q, Nat.zero_le _, Nat.le_refl _, htable, hkey, hanswer⟩
  · rw [h.time] at hn
    exact absurd hn (Nat.not_lt_zero _)
  · rw [h.time] at hn
    exact absurd hn (Nat.not_lt_zero _)

/-! ## Rows in memory -/

theorem not_writing_of_done {i : Nat} {call : RowCall} {table : String}
    {outcome : Except StoreError (Option QueryResult)}
    (h : s.threads[i]? = some ⟨call, .done outcome⟩) : ¬ s.Writing i table := by
  rintro ⟨_, _, hi⟩
  exact nomatch h.symm.trans hi

/-- Without a write that has yet to forget its rows, nothing has changed since the floor. -/
theorem Consistent.answer_eq (h : Consistent timeline naming s floor base) {table : String}
    (hquiet : ∀ i, ¬ s.Writing i table) {q : SelectQuery} (hq : q.table = table) {n : Nat}
    (hlow : floor table ≤ n) (hhigh : n ≤ s.time) :
    timeline.answer naming n q = timeline.answer naming s.time q := by
  obtain ⟨k, hk⟩ := Nat.exists_eq_add_of_le hhigh
  induction k generalizing n with
  | zero => rw [hk, Nat.add_zero]
  | succ k ih =>
    have hn : n < s.time := by omega
    rw [← ih (Nat.le_succ_of_le hlow) hn (by omega)]
    refine (Timeline.answer_congr ?_ (h.records n hn q.table)).symm
    rcases h.settled table n hlow hn with ⟨i, hi⟩ | hsame
    · exact absurd hi (hquiet i)
    · exact hsame q hq

/-- While no write of a table has yet to forget its rows, everything kept of the table is the answer
of now. And a read that starts when a write to its table has returned gives rows that the database
gave after the write. -/
theorem memoized_rows_fresh (timeline : Timeline) (naming : TableNaming) (s₀ : RowSystem)
    (h₀ : Initial timeline naming s₀) :
    (∀ s, Steps timeline naming s₀ s → ∀ table, (∀ i, ¬ s.Writing i table) →
      ∀ key result, s.world.caches.rows? table key = some result →
        ∃ q, q.table = table ∧ q.cacheKey = key ∧ timeline.answer naming s.time q = .ok result) ∧
    (∀ a b d, Steps timeline naming s₀ a → ∀ i table, a.Writing i table →
      Steps timeline naming a b → (∃ call outcome, b.threads[i]? = some ⟨call, .done outcome⟩) →
      ∀ q : SelectQuery, q.table = table →
        Steps timeline naming (b.start (RowCall.program naming) (.select q)) d →
        ∀ call result, d.threads[b.threads.length]? = some ⟨call, .done (.ok (some result))⟩ →
          ∃ n q', a.time ≤ n ∧ n ≤ d.time ∧ q'.table = table ∧ q'.cacheKey = q.cacheKey ∧
            timeline.answer naming n q' = .ok result) := by
  constructor
  · intro s hs table hquiet key result hcached
    obtain ⟨floor, base, h, _⟩ := h₀.consistent.steps hs
    obtain ⟨n, q, hlow, hhigh, htable, hkey, hanswer⟩ := h.coherent.rows hcached
    exact ⟨q, htable, hkey, (h.answer_eq hquiet htable hlow hhigh).symm.trans hanswer⟩
  · intro a b d ha i table hwriting hab hreturned q htable hbd call result hresult
    obtain ⟨floor, base, hconsistent, _⟩ := h₀.consistent.steps ha
    obtain ⟨floor', base', hb, hfollows⟩ := hconsistent.steps hab
    -- the write has returned, so it has forgotten the rows of its table
    have hfloor : a.time ≤ floor' table := by
      rcases hfollows.writing i table hwriting with hstill | hfloor
      · obtain ⟨_, _, hdone⟩ := hreturned
        exact absurd hstill (not_writing_of_done hdone)
      · exact hfloor
    obtain ⟨hstart, _⟩ := hb.start (.select q)
    obtain ⟨floor'', base'', hd, hfollows'⟩ := hstart.steps hbd
    obtain ⟨_, hthread⟩ := hfollows'.call b.threads.length ⟨.select q, _⟩ List.getElem?_concat_length
    obtain rfl : call = .select q := by
      rw [hresult] at hthread
      injection hthread with hthread
      injection hthread
    have hbase : base'' b.threads.length = floor' table := by
      rw [hfollows'.base b.threads.length (by simp [System.start])]
      exact (if_pos rfl).trans (congrArg floor' htable)
    have hfinished := hd.obeyed _ _ hresult _ hd.coherent (RowsView.Later.refl _)
    obtain ⟨n, q', hlow, hhigh, htable', hkey, hanswer⟩ := hfinished result rfl
    exact ⟨n, q', Nat.le_trans hfloor (hbase ▸ hlow), hhigh, htable'.trans htable, hkey, hanswer⟩

/-! ## One run -/

/-- Counts the rows of the table `t`. -/
def countOfT : SelectQuery := { table := "t", selection := .count }

/-- One row in `t`, and none after the first write. -/
def onceEmptied : Timeline := fun n s =>
  if n = 0 ∧ s.sql = (countOfT.statement {}).sql then [.ofList [("count", .ofUInt64 1)]] else []

/-- A name whose quoted form starts that of `t` is `t`. -/
theorem eq_of_quoteIdent_append {name : String} {rest : List Char}
    (h : (quoteIdent name).toList ++ rest = (quoteIdent "t").toList) : name = "t" := by
  have ht : (quoteIdent "t").toList = [backtick, 't', backtick] := by decide
  rw [ht, quoteIdent, quotedBy, String.toList_ofList] at h
  apply String.toList_inj.mp
  show name.toList = ['t']
  cases hname : name.toList with
  | nil => simp [hname, backtick] at h
  | cons c cs =>
    rw [hname] at h
    by_cases hc : c = backtick
    · simp [hc, backtick] at h
    · simp [hc] at h
      obtain ⟨rfl, h⟩ := h
      cases cs with
      | nil => rfl
      | cons d ds =>
        have hlength := congrArg List.length h
        by_cases hd : d = backtick
        · simp [hd] at hlength
        · simp [hd] at hlength

theorem table_of_sql {q : SelectQuery} (h : (q.statement {}).sql = (countOfT.statement {}).sql) :
    q.table = "t" := by
  have hcount : (countOfT.statement {}).sql =
      "SELECT COUNT(*) AS \x60count\x60 FROM " ++ quoteIdent "t" := by decide
  rw [hcount] at h
  have hchars := congrArg String.toList h
  have hphysical : TableNaming.physical {} q.table = q.table := String.empty_append
  simp only [SelectQuery.statement, hphysical, String.toList_append] at hchars
  cases hselection : q.selection with
  | count =>
    simp [hselection, Selection.sql] at hchars
    exact eq_of_quoteIdent_append hchars
  | all => simp [hselection, Selection.sql] at hchars
  | columns names =>
    cases names with
    | nil => simp [hselection, Selection.sql, commaSeparated] at hchars
    | cons name names =>
      rw [hselection, Selection.sql, List.map_cons] at hchars
      cases names with
      | nil => simp [commaSeparated, quoteIdent, quotedBy, backtick] at hchars
      | cons => simp [commaSeparated, quoteIdent, quotedBy, backtick] at hchars

theorem onceEmptied_writes (n : Nat) : onceEmptied.WritesTable {} n "t" where
  rows q hq := by
    have hsql : (q.statement {}).sql ≠ (countOfT.statement {}).sql := fun h => hq (table_of_sql h)
    unfold onceEmptied
    rw [if_neg fun h => hsql h.2, if_neg fun h => hsql h.2]
  records t := by
    have hsql : (Records.selectSchema {} "").sql ≠ (countOfT.statement {}).sql := by decide
    unfold onceEmptied
    rw [if_neg fun h => hsql h.2, if_neg fun h => hsql h.2]

theorem onceEmptied_initial : Initial onceEmptied {} ⟨coldWorld 0, []⟩ where
  threads := rfl
  time := rfl
  rows h := nomatch h
  schemas h := nomatch h

/-- Deletes the rows of the table `t`. -/
def deleteOfT : RowCall := .delete "t" .empty none none

/-- The rows of `t` are deleted in the database. -/
def deleted : RowSystem :=
  (System.start (RowCall.program {}) deleteOfT ⟨coldWorld 0, []⟩).turn onceEmptied 0

/-- They are forgotten, and the delete returns. -/
def forgotten : RowSystem := deleted.turn onceEmptied 0

/-- Then they are counted: a look-up, a generation, a statement, and the answer is kept. -/
def counted : RowSystem :=
  let asked := forgotten.start (RowCall.program {}) (.select countOfT)
  (((asked.turn onceEmptied 1).turn onceEmptied 1).turn onceEmptied 1).turn onceEmptied 1

theorem steps_turn_of_t {s : RowSystem} {i : Nat} {th : RowThread} (hth : s.threads[i]? = some th)
    (htable : th.call.table = "t") : Steps onceEmptied {} s (s.turn onceEmptied i) := by
  refine System.steps_turn fun th' hth' => ?_
  obtain rfl : th = th' := Option.some.inj (hth.symm.trans hth')
  show onceEmptied.WritesTable {} s.time th.call.table
  rw [htable]
  exact onceEmptied_writes s.time

theorem deleted_threads : ∃ rest, deleted.threads = [⟨deleteOfT, .perform (.forgetRows "t") rest⟩] :=
  ⟨_, rfl⟩

theorem forgotten_threads : forgotten.threads = [⟨deleteOfT, .done (.ok none)⟩] := rfl

theorem counted_threads : counted.threads =
    [⟨deleteOfT, .done (.ok none)⟩, ⟨.select countOfT, .done (.ok (some (.count 0)))⟩] := rfl

theorem steps_deleted : Steps onceEmptied {} ⟨coldWorld 0, []⟩ deleted := by
  refine .trans (.single (.start _ deleteOfT)) ?_
  exact steps_turn_of_t rfl rfl

theorem steps_forgotten : Steps onceEmptied {} deleted forgotten := by
  obtain ⟨rest, hdeleted⟩ := deleted_threads
  exact steps_turn_of_t (by rw [hdeleted]; rfl) rfl

theorem steps_counted :
    Steps onceEmptied {} (forgotten.start (RowCall.program {}) (.select countOfT)) counted := by
  unfold counted
  refine .trans ?_ (steps_turn_of_t rfl rfl)
  refine .trans ?_ (steps_turn_of_t rfl rfl)
  refine .trans ?_ (steps_turn_of_t rfl rfl)
  exact steps_turn_of_t rfl rfl

/-- The rows of `t` are deleted, and then they are counted. -/
theorem memoized_rows_fresh_emptied :
    deleted.Writing 0 "t" ∧ forgotten.threads[0]? = some ⟨deleteOfT, .done (.ok none)⟩ ∧
      counted.threads[1]? = some ⟨.select countOfT, .done (.ok (some (.count 0)))⟩ ∧
      (∀ key result, counted.world.caches.rows? "t" key = some result → ∃ q : SelectQuery,
        q.table = "t" ∧ q.cacheKey = key ∧ onceEmptied.answer {} counted.time q = .ok result) ∧
      ∃ n q', deleted.time ≤ n ∧ n ≤ counted.time ∧ q'.table = "t" ∧
        q'.cacheKey = countOfT.cacheKey ∧ onceEmptied.answer {} n q' = .ok (.count 0) := by
  obtain ⟨hkept, hreturned⟩ := memoized_rows_fresh onceEmptied {} _ onceEmptied_initial
  have hwriting : deleted.Writing 0 "t" := by
    obtain ⟨rest, hdeleted⟩ := deleted_threads
    exact ⟨deleteOfT, rest, congrArg (·[0]?) hdeleted⟩
  have hdone : forgotten.threads[0]? = some ⟨deleteOfT, .done (.ok none)⟩ :=
    congrArg (·[0]?) forgotten_threads
  have hcounted : counted.threads[1]? = some ⟨.select countOfT, .done (.ok (some (.count 0)))⟩ :=
    congrArg (·[1]?) counted_threads
  have hquiet : ∀ i, ¬ counted.Writing i "t" := by
    intro i
    rcases i with _ | _ | i
    · exact not_writing_of_done (congrArg (·[0]?) counted_threads)
    · exact not_writing_of_done hcounted
    · rintro ⟨_, _, hi⟩
      rw [counted_threads] at hi
      exact nomatch hi
  have hstart : Steps onceEmptied {} forgotten
      (forgotten.start (RowCall.program {}) (.select countOfT)) := .single (.start _ _)
  refine ⟨hwriting, hdone, hcounted, ?_, ?_⟩
  · refine hkept counted (.trans (.trans steps_deleted steps_forgotten) ?_) "t" hquiet
    exact .trans hstart steps_counted
  · exact hreturned deleted forgotten counted steps_deleted 0 "t" hwriting steps_forgotten
      ⟨_, _, hdone⟩ countOfT rfl steps_counted _ _ hcounted

end RowSystem

end ContentTables
