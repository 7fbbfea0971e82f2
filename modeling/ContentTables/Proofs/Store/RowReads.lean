import ContentTables.Proofs.Store.Concurrent
import ContentTables.Proofs.Store.Running
import ContentTables.Store.Rows

/-!
# Reading rows next to writes

What a table's readers and writers agree on. Every write that succeeds advances the time, and the
`floor` of a table is the time at which its rows were forgotten last. What is kept of the table was
read at its floor or later, and the generation of the table tells whether the floor has moved.

* `Timeline.answer`, `Timeline.recorded` : what a query gives at a time, and the schema recorded for
  a table;
* `RowsView`, `RowsView.Coherent`, `RowsView.Later` : the view, what always holds of it, and what
  the others may do to it;
* `rowsDiscipline` : the agreement;
* `obeys_find?`, `obeys_get`, `obeys_rows`, `obeys_selectCached`, `obeys_insert`, `obeys_update`,
  `obeys_delete` : the operations keep it.
-/

namespace ContentTables

/-! ## Answers at a time -/

namespace Timeline

/-- The answer to a query at a time, with nothing in memory. -/
def answer (timeline : Timeline) (naming : TableNaming) (n : Nat) (q : SelectQuery) :
    Except StoreError QueryResult :=
  ((Rows.get naming q).exec timeline.database (coldWorld n)).1

/-- The schema in the record of a table at that time. -/
def recorded (timeline : Timeline) (naming : TableNaming) (n : Nat) (table : String) :
    Except StoreError TableSchema :=
  match (timeline n (Records.selectSchema naming table)).head? with
  | some record => Records.decode record
  | none => .error (.tableNotFound table)

variable {timeline : Timeline} {naming : TableNaming} {n : Nat}

theorem exec_fetch (s : Statement) (w : World Nat) :
    (Operation.fetch s).exec timeline.database w = (.ok (timeline w.database s), w) :=
  Operation.exec_fetch ..

theorem exec_get_cold (table : String) :
    ((Records.get naming table).exec timeline.database (coldWorld n)).1 =
      timeline.recorded naming n table := by
  unfold Records.get Records.find? recorded
  have hmiss : (coldWorld n).answer timeline.database (.cachedSchema table) = (none, coldWorld n) := rfl
  rw [bind_assoc, Operation.exec_ask_bind, hmiss]
  simp only
  rw [bind_assoc, Operation.exec_ask_bind, bind_assoc, Operation.exec_bind_ok _ (exec_fetch _ _)]
  have htime : ((coldWorld n).answer timeline.database .schemaGeneration).2.database = n := rfl
  rw [htime]
  cases (timeline n (Records.selectSchema naming table)).head? with
  | none => rfl
  | some record =>
    simp only
    cases Records.decode record with
    | error e => rfl
    | ok schema => rfl

theorem answer_eq (q : SelectQuery) : timeline.answer naming n q =
    if q.selection = .count then .ok (.count (Rows.countOf (timeline n (q.statement naming))))
    else if (timeline n (q.statement naming)).isEmpty then .ok (.rows [])
    else (timeline.recorded naming n q.table).map fun schema =>
      .rows (schema.decodeRows (timeline n (q.statement naming))) := by
  unfold answer Rows.get
  rw [Operation.exec_bind_ok _ (exec_fetch _ _)]
  have htime : (coldWorld n).database = n := rfl
  rw [htime]
  split
  · rfl
  · split
    · rfl
    · rw [← exec_get_cold, Operation.exec_bind]
      rcases (Records.get naming q.table).exec timeline.database (coldWorld n) with ⟨_ | schema, w⟩
      · rfl
      · rfl

/-- An answer depends on the rows and the record of its table only. -/
theorem answer_congr {m : Nat} {q : SelectQuery}
    (hrows : timeline m (q.statement naming) = timeline n (q.statement naming))
    (hrecord : timeline m (Records.selectSchema naming q.table) =
      timeline n (Records.selectSchema naming q.table)) :
    timeline.answer naming m q = timeline.answer naming n q := by
  rw [answer_eq, answer_eq, hrows, recorded, recorded, hrecord]

end Timeline

/-! ## What is agreed on -/

structure RowsView where
  world : World Nat
  /-- The time at which the rows of each table were forgotten last. -/
  floor : String → Nat

namespace RowsView

def time (v : RowsView) : Nat := v.world.database

def generation (v : RowsView) (table : String) : Nat := v.world.caches.rowsGeneration table

/-- The answer to a query with that table and key, at the floor of the table or later. -/
def Fresh (timeline : Timeline) (naming : TableNaming) (v : RowsView) (table key : String)
    (result : QueryResult) : Prop :=
  ∃ n q, v.floor table ≤ n ∧ n ≤ v.time ∧ q.table = table ∧ q.cacheKey = key ∧
    timeline.answer naming n q = .ok result

structure Coherent (timeline : Timeline) (naming : TableNaming) (v : RowsView) : Prop where
  floor : ∀ table, v.floor table ≤ v.time
  rows : ∀ {table key result}, v.world.caches.rows? table key = some result →
    v.Fresh timeline naming table key result
  schemas : ∀ {table schema}, v.world.caches.schema? table = some schema →
    timeline.recorded naming v.time table = .ok schema

/-- A later view of the same system, the records as they were. -/
structure Later (timeline : Timeline) (naming : TableNaming) (v w : RowsView) : Prop where
  time : v.time ≤ w.time
  floor : ∀ table, v.floor table ≤ w.floor table
  generation : ∀ table, v.generation table ≤ w.generation table
  unmoved : ∀ table, w.generation table = v.generation table → w.floor table = v.floor table
  records : ∀ table, timeline w.time (Records.selectSchema naming table) =
    timeline v.time (Records.selectSchema naming table)

variable {timeline : Timeline} {naming : TableNaming} {u v w : RowsView}

theorem Later.refl (v : RowsView) : Later timeline naming v v :=
  ⟨Nat.le_refl _, fun _ => Nat.le_refl _, fun _ => Nat.le_refl _, fun _ _ => rfl, fun _ => rfl⟩

theorem Later.trans (h : Later timeline naming u v) (h' : Later timeline naming v w) :
    Later timeline naming u w where
  time := Nat.le_trans h.time h'.time
  floor table := Nat.le_trans (h.floor table) (h'.floor table)
  generation table := Nat.le_trans (h.generation table) (h'.generation table)
  unmoved table hw := by
    have hv := h.generation table
    have hv' := h'.generation table
    rw [h'.unmoved table (by omega), h.unmoved table (by omega)]
  records table := (h'.records table).trans (h.records table)

theorem Later.recorded (h : Later timeline naming v w) (table : String) :
    timeline.recorded naming w.time table = timeline.recorded naming v.time table := by
  unfold Timeline.recorded
  rw [h.records table]

/-- What may be kept: the recorded schema, and rows that are fresh unless the generation has moved. -/
def May (timeline : Timeline) (naming : TableNaming) (v : RowsView) : Effect → Prop
  | .keepSchema table schema _ => timeline.recorded naming v.time table = .ok schema
  | .keepRows table key result generation =>
    v.generation table = generation → v.Fresh timeline naming table key result
  | .forgetSchema _ | .announce _ => False
  | _ => True

/-- A write that succeeds takes one unit of time and changes no record. -/
def Performed (timeline : Timeline) (naming : TableNaming) (v : RowsView) :
    (e : Effect) → e.Answer → RowsView → Prop
  | .execute _, .error _, w => w = v
  | .execute _, .ok _, w => w = ⟨{ v.world with database := v.time + 1 }, v.floor⟩ ∧
    ∀ table, timeline (v.time + 1) (Records.selectSchema naming table) =
      timeline v.time (Records.selectSchema naming table)
  | .fetch _, .error _, w => w = v
  | .forgetRows table, _, w =>
    w = ⟨(v.world.answer timeline.database (.forgetRows table)).2,
      fun t => if t = table then v.time else v.floor t⟩
  | e, a, w => v.world.answer timeline.database e = (a, w.world) ∧ w.floor = v.floor

theorem Fresh.mono {table key : String} {result : QueryResult}
    (h : v.Fresh timeline naming table key result) (hfloor : w.floor table = v.floor table)
    (htime : v.time ≤ w.time) : w.Fresh timeline naming table key result := by
  obtain ⟨n, q, hlow, hhigh, hq⟩ := h
  exact ⟨n, q, hfloor ▸ hlow, Nat.le_trans hhigh htime, hq⟩

theorem sound_write (hv : v.Coherent timeline naming)
    (hrecords : ∀ table, timeline (v.time + 1) (Records.selectSchema naming table) =
      timeline v.time (Records.selectSchema naming table)) :
    let w : RowsView := ⟨{ v.world with database := v.time + 1 }, v.floor⟩
    w.Coherent timeline naming ∧ Later timeline naming v w := by
  intro w
  have hlater : Later timeline naming v w :=
    ⟨Nat.le_succ _, fun _ => Nat.le_refl _, fun _ => Nat.le_refl _, fun _ _ => rfl, hrecords⟩
  refine ⟨⟨fun table => Nat.le_succ_of_le (hv.floor table), ?_, ?_⟩, hlater⟩
  · exact fun h => (hv.rows h).mono rfl (Nat.le_succ _)
  · exact fun h => (hlater.recorded _).trans (hv.schemas h)

theorem sound_keepSchema (hv : v.Coherent timeline naming) {table : String} {schema : TableSchema}
    (hschema : timeline.recorded naming v.time table = .ok schema) (generation : Nat) :
    let w : RowsView := ⟨{ v.world with
      caches := (v.world.caches.keepSchema table schema generation).2 }, v.floor⟩
    w.Coherent timeline naming ∧ Later timeline naming v w := by
  intro w
  have hrows : w.world.caches.rows = v.world.caches.rows := rfl
  have hlater : Later timeline naming v w :=
    ⟨Nat.le_refl _, fun _ => Nat.le_refl _, fun _ => Nat.le_refl _, fun _ _ => rfl, fun _ => rfl⟩
  refine ⟨⟨hv.floor, fun h => hv.rows h, fun {table' schema'} h => ?_⟩, hlater⟩
  have hkept : w.world.caches.schema? table' =
      ((v.world.caches.schemas.keep Caches.schemaGroup table schema generation).2).get?
        Caches.schemaGroup table' := rfl
  rw [hkept] at h
  unfold GroupedCache.keep at h
  split at h
  · rw [GroupedCache.get?_set] at h
    split at h
    · rename_i heq
      obtain rfl := Option.some.inj h
      exact heq.2 ▸ hschema
    · exact hv.schemas h
  · exact hv.schemas h

theorem sound_keepRows (hv : v.Coherent timeline naming) {table key : String} {result : QueryResult}
    {generation : Nat}
    (hfresh : v.generation table = generation → v.Fresh timeline naming table key result) :
    let w : RowsView := ⟨{ v.world with
      caches := (v.world.caches.keepRows table key result generation).2 }, v.floor⟩
    w.Coherent timeline naming ∧ Later timeline naming v w := by
  intro w
  have hkept : w.world.caches.rows = (v.world.caches.rows.keep table key result generation).2 := rfl
  have hgeneration : ∀ t, w.generation t = v.generation t := by
    intro t
    show w.world.caches.rows.generation t = v.world.caches.rows.generation t
    rw [hkept]
    unfold GroupedCache.keep
    split
    · rw [GroupedCache.generation_set]
    · rfl
  have hlater : Later timeline naming v w :=
    ⟨Nat.le_refl _, fun _ => Nat.le_refl _, fun t => Nat.le_of_eq (hgeneration t).symm,
      fun _ _ => rfl, fun _ => rfl⟩
  refine ⟨⟨hv.floor, fun {table' key' result'} h => ?_, fun h => hv.schemas h⟩, hlater⟩
  change w.world.caches.rows.get? table' key' = some result' at h
  rw [hkept] at h
  unfold GroupedCache.keep at h
  split at h
  · rename_i hsame
    rw [GroupedCache.get?_set] at h
    split at h
    · rename_i heq
      obtain rfl := Option.some.inj h
      exact heq.1 ▸ heq.2 ▸ hfresh hsame
    · exact hv.rows h
  · exact hv.rows h

theorem sound_forgetRows (hv : v.Coherent timeline naming) (table : String) :
    let w : RowsView := ⟨{ v.world with caches := v.world.caches.forgetRows table },
      fun t => if t = table then v.time else v.floor t⟩
    w.Coherent timeline naming ∧ Later timeline naming v w := by
  intro w
  have hfloor : ∀ t, w.floor t = if t = table then v.time else v.floor t := fun _ => rfl
  have hgeneration : ∀ t, w.generation t = v.generation t + if t = table then 1 else 0 :=
    fun t => GroupedCache.generation_clearGroup _ table t
  have hrows : ∀ t key, w.world.caches.rows? t key =
      if t = table then none else v.world.caches.rows? t key :=
    fun t key => GroupedCache.get?_clearGroup _ table t key
  have hlater : Later timeline naming v w := by
    refine ⟨Nat.le_refl _, fun t => ?_, fun t => ?_, fun t h => ?_, fun _ => rfl⟩
    · rw [hfloor]
      split
      · exact hv.floor t
      · exact Nat.le_refl _
    · rw [hgeneration]
      exact Nat.le_add_right _ _
    · rw [hgeneration] at h
      rw [hfloor]
      split at h
      · omega
      · rename_i ht
        rw [if_neg ht]
  refine ⟨⟨fun t => ?_, fun {t key result} h => ?_, fun h => hv.schemas h⟩, hlater⟩
  · rw [hfloor]
    split
    · exact Nat.le_refl _
    · exact hv.floor t
  · rw [hrows] at h
    split at h
    · exact absurd h nofun
    · rename_i ht
      exact (hv.rows h).mono (by rw [hfloor, if_neg ht]) (Nat.le_refl _)

theorem eq_of_answer {e : Effect} {a : e.Answer}
    (h : v.world.answer timeline.database e = (a, w.world) ∧ w.floor = v.floor) :
    w = ⟨(v.world.answer timeline.database e).2, v.floor⟩ := by
  obtain ⟨hanswer, hfloor⟩ := h
  rw [hanswer, ← hfloor]

theorem Performed.sound {e : Effect} {a : e.Answer} (hv : v.Coherent timeline naming)
    (hmay : v.May timeline naming e) (h : v.Performed timeline naming e a w) :
    w.Coherent timeline naming ∧ Later timeline naming v w := by
  -- an effect that changes nothing
  have hsame : w = v → w.Coherent timeline naming ∧ Later timeline naming v w := by
    rintro rfl
    exact ⟨hv, Later.refl w⟩
  cases e with
  | execute s =>
    cases a with
    | error fault => exact hsame h
    | ok written =>
      obtain ⟨rfl, hrecords⟩ := h
      exact sound_write hv hrecords
  | fetch s =>
    cases a with
    | error fault => exact hsame h
    | ok rows => exact hsame (eq_of_answer h)
  | cachedSchema table => exact hsame (eq_of_answer h)
  | schemaGeneration => exact hsame (eq_of_answer h)
  | keepSchema table schema generation =>
    obtain rfl := eq_of_answer h
    exact sound_keepSchema hv hmay generation
  | forgetSchema table => exact hmay.elim
  | cachedRows table key => exact hsame (eq_of_answer h)
  | rowsGeneration table => exact hsame (eq_of_answer h)
  | keepRows table key result generation =>
    obtain rfl := eq_of_answer h
    exact sound_keepRows hv hmay
  | forgetRows table =>
    obtain rfl : w = _ := h
    exact sound_forgetRows hv table
  | announce event => exact hmay.elim

end RowsView

def rowsDiscipline (timeline : Timeline) (naming : TableNaming) : Discipline RowsView where
  invariant := RowsView.Coherent timeline naming
  rely := RowsView.Later timeline naming
  may := RowsView.May timeline naming
  effect := RowsView.Performed timeline naming
  rely_refl := RowsView.Later.refl
  rely_trans := RowsView.Later.trans
  sound := RowsView.Performed.sound

/-! ## The operations keep it -/

section Operations
open Operation
variable (timeline : Timeline) (naming : TableNaming)

theorem obeys_find? (table : String) (v : RowsView) :
    (Records.find? naming table).Obeys (rowsDiscipline timeline naming)
      (fun found _ => ∀ schema, found = some schema →
        timeline.recorded naming v.time table = .ok schema) v := by
  unfold Records.find?
  refine obeys_ask_bind fun w hw hvw => ⟨trivial, fun found u hfound hvu => ?_⟩
  cases found with
  | some schema =>
    have hcached : w.world.caches.schema? table = some schema := congrArg Prod.fst hfound.1
    refine obeys_pure fun _ _ _ schema' hschema' => ?_
    obtain rfl := Option.some.inj hschema'
    exact (hvw.recorded table).symm.trans (hw.schemas hcached)
  | none =>
    refine obeys_ask_bind fun _ _ _ => ⟨trivial, fun generation x _ hux => ?_⟩
    refine obeys_fetch_bind fun y _ hxy => ⟨trivial, fun rows z hrows hxz => ?_⟩
    have hread : timeline y.time (Records.selectSchema naming table) = rows :=
      Except.ok.inj (congrArg Prod.fst hrows.1)
    cases hhead : rows.head? with
    | none => exact obeys_pure fun _ _ _ _ h => nomatch h
    | some record =>
      refine obeys_ofExcept_bind fun schema hdecode => ?_
      have hvy := (hvu.trans hux).trans hxy
      have hvz := (hvu.trans hux).trans hxz
      have hrecorded : timeline.recorded naming v.time table = .ok schema := by
        rw [← hvy.recorded table]
        unfold Timeline.recorded
        rw [hread, hhead]
        exact hdecode
      refine obeys_ask_bind fun z' _ hzz' =>
        ⟨((hvz.trans hzz').recorded table).trans hrecorded, fun _ _ _ _ => ?_⟩
      refine obeys_pure fun _ _ _ schema' hschema' => ?_
      obtain rfl := Option.some.inj hschema'
      exact hrecorded

theorem obeys_get (table : String) (v : RowsView) :
    (Records.get naming table).Obeys (rowsDiscipline timeline naming)
      (fun schema _ => timeline.recorded naming v.time table = .ok schema) v := by
  unfold Records.get
  refine Obeys.bind (obeys_find? timeline naming table v) fun found w hfound _ => ?_
  cases found with
  | none => exact obeys_throw
  | some schema => exact obeys_pure fun _ _ _ => hfound schema rfl

/-- The answer of a moment since the start. -/
theorem obeys_rows (q : SelectQuery) (v : RowsView) :
    (Rows.get naming q).Obeys (rowsDiscipline timeline naming)
      (fun result w => ∃ n, v.time ≤ n ∧ n ≤ w.time ∧ timeline.answer naming n q = .ok result) v := by
  unfold Rows.get
  refine obeys_fetch_bind fun w hw hvw => ⟨trivial, fun rows u hrows hvu => ?_⟩
  obtain rfl : timeline w.time (q.statement naming) = rows :=
    Except.ok.inj (congrArg Prod.fst hrows.1)
  have hwu : u = w := RowsView.eq_of_answer hrows
  subst hwu
  have hanswer := @Timeline.answer_eq timeline naming u.time q
  have hsince : ∀ result, timeline.answer naming u.time q = .ok result → ∀ w,
      RowsView.Later timeline naming u w →
      ∃ n, v.time ≤ n ∧ n ≤ w.time ∧ timeline.answer naming n q = .ok result :=
    fun result hresult w huw => ⟨u.time, hvu.time, huw.time, hresult⟩
  split
  · rename_i hcount
    exact obeys_pure fun w _ => hsince _ (by rw [hanswer, if_pos hcount]) w
  · rename_i hcount
    split
    · rename_i hempty
      exact obeys_pure fun w _ => hsince _ (by rw [hanswer, if_neg hcount, if_pos hempty]) w
    · rename_i hempty
      refine Obeys.bind (obeys_get timeline naming q.table u) fun schema w hrecorded huw => ?_
      refine obeys_pure fun x _ hwx => hsince _ ?_ x (huw.trans hwx)
      rw [hanswer, if_neg hcount, if_neg hempty, hrecorded]
      rfl

/-- An answer to a query with the same table and key, since the rows were forgotten last. -/
theorem obeys_selectCached (q : SelectQuery) (v : RowsView) :
    (Rows.selectCached naming q).Obeys (rowsDiscipline timeline naming)
      (fun result w => ∃ n q', v.floor q.table ≤ n ∧ n ≤ w.time ∧ q'.table = q.table ∧
        q'.cacheKey = q.cacheKey ∧ timeline.answer naming n q' = .ok result) v := by
  unfold Rows.selectCached
  refine obeys_ask_bind fun w hw hvw => ⟨trivial, fun found u hfound hvu => ?_⟩
  cases found with
  | some result =>
    have hcached : w.world.caches.rows? q.table q.cacheKey = some result :=
      congrArg Prod.fst hfound.1
    obtain ⟨n, q', hlow, hhigh, hq'⟩ := hw.rows hcached
    obtain rfl : u = w := RowsView.eq_of_answer hfound
    exact obeys_pure fun x _ hux =>
      ⟨n, q', Nat.le_trans (hvw.floor _) hlow, Nat.le_trans hhigh hux.time, hq'⟩
  | none =>
    refine obeys_ask_bind fun x hx hux => ⟨trivial, fun generation y hy huy => ?_⟩
    obtain rfl : y = x := RowsView.eq_of_answer hy
    obtain rfl : y.generation q.table = generation := congrArg Prod.fst hy.1
    refine Obeys.bind (obeys_rows timeline naming q y) fun result z hresult hyz => ?_
    obtain ⟨n, hlow, hhigh, hanswer⟩ := hresult
    have hfloor : y.floor q.table ≤ n := Nat.le_trans (hx.floor q.table) hlow
    refine obeys_ask_bind fun z' _ hzz' => ⟨fun hunmoved => ?_, fun _ z'' _ hzz'' => ?_⟩
    · -- the floor is where it was when the generation was read
      have hsame := (hyz.trans hzz').unmoved q.table hunmoved
      exact ⟨n, q, hsame ▸ hfloor, Nat.le_trans hhigh hzz'.time, rfl, rfl, hanswer⟩
    · refine obeys_pure fun x' _ hx' => ⟨n, q, ?_, ?_, rfl, rfl, hanswer⟩
      · exact Nat.le_trans ((hvu.trans huy).floor q.table) hfloor
      · exact Nat.le_trans hhigh (hzz''.trans hx').time

theorem obeys_insert (now table : String) (row : Row) (v : RowsView) :
    (Rows.insert naming now table row).Obeys (rowsDiscipline timeline naming) (fun _ _ => True) v := by
  unfold Rows.insert
  refine Obeys.bind (obeys_get timeline naming table v) fun schema _ _ _ => ?_
  refine obeys_ofExcept_bind fun prepared _ => ?_
  refine obeys_execute_bind fun _ _ _ => ⟨trivial, fun written _ _ _ => ?_⟩
  refine obeys_ask_bind fun _ _ _ => ⟨trivial, fun _ _ _ _ => ?_⟩
  split
  · exact obeys_pure fun _ _ _ => trivial
  · exact obeys_pure fun _ _ _ => trivial

theorem obeys_update (table : String) (row : Row) (condition : Condition) (v : RowsView) :
    (Rows.update naming table row condition).Obeys (rowsDiscipline timeline naming)
      (fun _ _ => True) v := by
  unfold Rows.update
  refine Obeys.bind (obeys_get timeline naming table v) fun schema _ _ _ => ?_
  refine obeys_ofExcept_bind fun prepared _ => ?_
  refine obeys_ofExcept_bind fun statement _ => ?_
  refine obeys_execute_bind fun _ _ _ => ⟨trivial, fun written _ _ _ => ?_⟩
  refine obeys_ask_bind fun _ _ _ => ⟨trivial, fun _ _ _ _ => ?_⟩
  exact obeys_pure fun _ _ _ => trivial

theorem obeys_delete (table : String) (condition : Condition) (offset limit : Option UInt64)
    (v : RowsView) :
    (Rows.delete naming table condition offset limit).Obeys (rowsDiscipline timeline naming)
      (fun _ _ => True) v := by
  unfold Rows.delete
  refine obeys_execute_bind fun _ _ _ => ⟨trivial, fun written _ _ _ => ?_⟩
  refine obeys_ask_bind fun _ _ _ => ⟨trivial, fun _ _ _ _ => ?_⟩
  exact obeys_pure fun _ _ _ => trivial

end Operations

end ContentTables
