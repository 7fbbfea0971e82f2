import ContentTables.Proofs.Store.RowReads

/-!
# Reading schemas next to record writes

What the readers and writers of schema records agree on. Every write that succeeds advances the
time, and the `floor` of a table is the time at which its schema was forgotten last. All schemas are
kept under one generation, so it tells whether any floor has moved.

* `SchemaView`, `SchemaView.Coherent`, `SchemaView.Later` : the view, what always holds of it (a
  schema in memory was recorded at the floor of its table or later), and what the others may do;
* `schemaDiscipline` : the agreement;
* `keeps_find?`, `keeps_put`, `keeps_replace`, `keeps_drop` : the operations on records keep it.
-/

namespace ContentTables

structure SchemaView where
  world : World Nat
  /-- The time at which the schema of each table was forgotten last. -/
  floor : String → Nat

namespace SchemaView

def time (v : SchemaView) : Nat := v.world.database

def generation (v : SchemaView) : Nat := v.world.caches.schemaGeneration

/-- The schema was recorded for the table at its floor or later. -/
def Fresh (timeline : Timeline) (naming : TableNaming) (v : SchemaView) (table : String)
    (schema : TableSchema) : Prop :=
  ∃ n, v.floor table ≤ n ∧ n ≤ v.time ∧ timeline.recorded naming n table = .ok schema

structure Coherent (timeline : Timeline) (naming : TableNaming) (v : SchemaView) : Prop where
  floor : ∀ table, v.floor table ≤ v.time
  schemas : ∀ {table schema}, v.world.caches.schema? table = some schema →
    v.Fresh timeline naming table schema

/-- A later view of the same system. -/
structure Later (v w : SchemaView) : Prop where
  time : v.time ≤ w.time
  floor : ∀ table, v.floor table ≤ w.floor table
  generation : v.generation ≤ w.generation
  unmoved : w.generation = v.generation → w.floor = v.floor

variable {timeline : Timeline} {naming : TableNaming} {u v w : SchemaView}

theorem Later.refl (v : SchemaView) : Later v v :=
  ⟨Nat.le_refl _, fun _ => Nat.le_refl _, Nat.le_refl _, fun _ => rfl⟩

theorem Later.trans (h : Later u v) (h' : Later v w) : Later u w where
  time := Nat.le_trans h.time h'.time
  floor table := Nat.le_trans (h.floor table) (h'.floor table)
  generation := Nat.le_trans h.generation h'.generation
  unmoved hw := by
    have hv := h.generation
    have hv' := h'.generation
    rw [h'.unmoved (by omega), h.unmoved (by omega)]

/-- A schema may be kept if it is fresh or the generation has moved; rows are nobody's concern. -/
def May (timeline : Timeline) (naming : TableNaming) (v : SchemaView) : Effect → Prop
  | .keepSchema table schema generation =>
    v.generation = generation → v.Fresh timeline naming table schema
  | .keepRows .. | .forgetRows _ | .announce _ => False
  | _ => True

/-- A write that succeeds takes one unit of time. -/
def Performed (timeline : Timeline) (v : SchemaView) : (e : Effect) → e.Answer → SchemaView → Prop
  | .execute _, .error _, w => w = v
  | .execute _, .ok _, w => w = ⟨{ v.world with database := v.time + 1 }, v.floor⟩
  | .fetch _, .error _, w => w = v
  | .forgetSchema table, _, w =>
    w = ⟨(v.world.answer timeline.database (.forgetSchema table)).2,
      fun t => if t = table then v.time else v.floor t⟩
  | e, a, w => v.world.answer timeline.database e = (a, w.world) ∧ w.floor = v.floor

theorem Fresh.mono {table : String} {schema : TableSchema}
    (h : v.Fresh timeline naming table schema) (hfloor : w.floor table = v.floor table)
    (htime : v.time ≤ w.time) : w.Fresh timeline naming table schema := by
  obtain ⟨n, hlow, hhigh, hrecorded⟩ := h
  exact ⟨n, hfloor ▸ hlow, Nat.le_trans hhigh htime, hrecorded⟩

theorem sound_write (hv : v.Coherent timeline naming) :
    let w : SchemaView := ⟨{ v.world with database := v.time + 1 }, v.floor⟩
    w.Coherent timeline naming ∧ Later v w := by
  intro w
  refine ⟨⟨fun table => Nat.le_succ_of_le (hv.floor table), fun h => ?_⟩, ?_⟩
  · exact (hv.schemas h).mono rfl (Nat.le_succ _)
  · exact ⟨Nat.le_succ _, fun _ => Nat.le_refl _, Nat.le_refl _, fun _ => rfl⟩

theorem sound_keepSchema (hv : v.Coherent timeline naming) {table : String} {schema : TableSchema}
    {generation : Nat}
    (hfresh : v.generation = generation → v.Fresh timeline naming table schema) :
    let w : SchemaView := ⟨{ v.world with
      caches := (v.world.caches.keepSchema table schema generation).2 }, v.floor⟩
    w.Coherent timeline naming ∧ Later v w := by
  intro w
  have hkept : w.world.caches.schemas =
      (v.world.caches.schemas.keep Caches.schemaGroup table schema generation).2 := rfl
  have hgeneration : w.generation = v.generation := by
    show w.world.caches.schemas.generation _ = v.world.caches.schemas.generation _
    rw [hkept]
    unfold GroupedCache.keep
    split
    · rw [GroupedCache.generation_set]
    · rfl
  refine ⟨⟨hv.floor, fun {table' schema'} h => ?_⟩, ?_⟩
  · rcases Caches.schema?_keepSchema h with ⟨hsame, rfl, rfl⟩ | h
    · exact hfresh hsame
    · exact hv.schemas h
  · exact ⟨Nat.le_refl _, fun _ => Nat.le_refl _, Nat.le_of_eq hgeneration.symm, fun _ => rfl⟩

theorem sound_forgetSchema (hv : v.Coherent timeline naming) (table : String) :
    let w : SchemaView := ⟨{ v.world with caches := v.world.caches.forgetSchema table },
      fun t => if t = table then v.time else v.floor t⟩
    w.Coherent timeline naming ∧ Later v w := by
  intro w
  have hfloor : ∀ t, w.floor t = if t = table then v.time else v.floor t := fun _ => rfl
  have hgeneration : w.generation = v.generation + 1 :=
    (GroupedCache.generation_clear ..).trans (by rw [if_pos rfl]; rfl)
  have hschema : ∀ t, w.world.caches.schema? t =
      if t = table then none else v.world.caches.schema? t :=
    fun t => Caches.schema?_forgetSchema ..
  refine ⟨⟨fun t => ?_, fun {t schema} h => ?_⟩, ⟨Nat.le_refl _, fun t => ?_, ?_, ?_⟩⟩
  · rw [hfloor]
    split
    · exact Nat.le_refl _
    · exact hv.floor t
  · rw [hschema] at h
    split at h
    · exact absurd h nofun
    · rename_i ht
      exact (hv.schemas h).mono (by rw [hfloor, if_neg ht]) (Nat.le_refl _)
  · rw [hfloor]
    split
    · exact hv.floor t
    · exact Nat.le_refl _
  · omega
  · intro h
    omega

theorem eq_of_answer {e : Effect} {a : e.Answer}
    (h : v.world.answer timeline.database e = (a, w.world) ∧ w.floor = v.floor) :
    w = ⟨(v.world.answer timeline.database e).2, v.floor⟩ := by
  obtain ⟨hanswer, hfloor⟩ := h
  rw [hanswer, ← hfloor]

theorem Performed.sound {e : Effect} {a : e.Answer} (hv : v.Coherent timeline naming)
    (hmay : v.May timeline naming e) (h : v.Performed timeline e a w) :
    w.Coherent timeline naming ∧ Later v w := by
  -- an effect that changes nothing
  have hsame : w = v → w.Coherent timeline naming ∧ Later v w := by
    rintro rfl
    exact ⟨hv, Later.refl w⟩
  cases e with
  | execute s =>
    cases a with
    | error fault => exact hsame h
    | ok written =>
      obtain rfl : w = _ := h
      exact sound_write hv
  | fetch s =>
    cases a with
    | error fault => exact hsame h
    | ok rows => exact hsame (eq_of_answer h)
  | cachedSchema table => exact hsame (eq_of_answer h)
  | schemaGeneration => exact hsame (eq_of_answer h)
  | keepSchema table schema generation =>
    obtain rfl := eq_of_answer h
    exact sound_keepSchema hv hmay
  | forgetSchema table =>
    obtain rfl : w = _ := h
    exact sound_forgetSchema hv table
  | cachedRows table key => exact hsame (eq_of_answer h)
  | rowsGeneration table => exact hsame (eq_of_answer h)
  | keepRows table key result generation => exact hmay.elim
  | forgetRows table => exact hmay.elim
  | announce event => exact hmay.elim

end SchemaView

def schemaDiscipline (timeline : Timeline) (naming : TableNaming) : Discipline SchemaView where
  invariant := SchemaView.Coherent timeline naming
  rely := SchemaView.Later
  may := SchemaView.May timeline naming
  effect := SchemaView.Performed timeline
  rely_refl := SchemaView.Later.refl
  rely_trans := SchemaView.Later.trans
  sound := SchemaView.Performed.sound

/-! ## The operations keep it -/

section Operations
open Operation
variable (timeline : Timeline) (naming : TableNaming) {α : Type}

/-- Whatever the result is. -/
def Operation.Keeps (x : Operation α) (v : SchemaView) : Prop :=
  x.Obeys (schemaDiscipline timeline naming) (fun _ _ => True) v

theorem keeps_pure (a : α) (v : SchemaView) : (pure a : Operation α).Keeps timeline naming v :=
  obeys_pure fun _ _ _ => trivial

/-- What is kept was read under the generation that it is kept under. -/
theorem keeps_find? (table : String) (v : SchemaView) :
    (Records.find? naming table).Keeps timeline naming v := by
  unfold Records.find?
  refine obeys_ask_bind fun _ _ _ => ⟨trivial, fun found _ _ _ => ?_⟩
  cases found with
  | some schema => exact keeps_pure timeline naming _ _
  | none =>
    refine obeys_ask_bind fun x hx _ => ⟨trivial, fun generation y hy _ => ?_⟩
    obtain rfl : y = x := SchemaView.eq_of_answer hy
    obtain rfl : y.generation = generation := congrArg Prod.fst hy.1
    refine obeys_fetch_bind fun z hz hyz => ⟨trivial, fun rows z' hrows _ => ?_⟩
    obtain rfl : timeline z.time (Records.selectSchema naming table) = rows :=
      Except.ok.inj (congrArg Prod.fst hrows.1)
    obtain rfl : z' = z := SchemaView.eq_of_answer hrows
    cases hhead : (timeline z'.time (Records.selectSchema naming table)).head? with
    | none => exact keeps_pure timeline naming _ _
    | some record =>
      refine obeys_ofExcept_bind fun schema hdecode => ?_
      have hrecorded : timeline.recorded naming z'.time table = .ok schema := by
        unfold Timeline.recorded
        rw [hhead]
        exact hdecode
      refine obeys_ask_bind fun w _ hzw => ⟨fun hunmoved => ?_, fun _ _ _ _ => ?_⟩
      · have hfloor := (hyz.trans hzw).unmoved hunmoved
        refine ⟨z'.time, ?_, hzw.time, hrecorded⟩
        rw [hfloor]
        exact Nat.le_trans (hyz.floor table) (hz.floor table)
      · exact keeps_pure timeline naming _ _

theorem keeps_forget_bind {table : String} {f : Unit → Operation α} {v : SchemaView}
    (h : ∀ w, (f ()).Keeps timeline naming w) :
    (Records.forget table >>= f).Keeps timeline naming v :=
  obeys_ask_bind fun _ _ _ => ⟨trivial, fun _ w _ _ => h w⟩

theorem keeps_execute_bind {s : Statement} {f : Written → Operation α} {v : SchemaView}
    (h : ∀ written w, (f written).Keeps timeline naming w) :
    (execute s >>= f).Keeps timeline naming v :=
  obeys_execute_bind fun _ _ _ => ⟨trivial, fun written w _ _ => h written w⟩

theorem keeps_forget (table : String) (v : SchemaView) :
    (Records.forget table).Keeps timeline naming v := by
  rw [← bind_pure (Records.forget table)]
  exact keeps_forget_bind timeline naming fun _ => keeps_pure timeline naming _ _

theorem keeps_put (table : String) (schema : TableSchema) (v : SchemaView) :
    (Records.put naming table schema).Keeps timeline naming v := by
  unfold Records.put
  refine keeps_forget_bind timeline naming fun _ => ?_
  exact keeps_execute_bind timeline naming fun _ _ => keeps_forget timeline naming table _

theorem keeps_replace (key table : String) (schema : TableSchema) (v : SchemaView) :
    (Records.replace naming key table schema).Keeps timeline naming v := by
  unfold Records.replace
  refine keeps_forget_bind timeline naming fun _ => ?_
  refine keeps_forget_bind timeline naming fun _ => ?_
  refine keeps_execute_bind timeline naming fun _ _ => ?_
  exact keeps_forget_bind timeline naming fun _ => keeps_forget timeline naming table _

theorem keeps_drop (table : String) (v : SchemaView) :
    (Records.drop naming table).Keeps timeline naming v := by
  unfold Records.drop
  refine keeps_forget_bind timeline naming fun _ => ?_
  exact keeps_execute_bind timeline naming fun _ _ => keeps_forget timeline naming table _

end Operations

end ContentTables
