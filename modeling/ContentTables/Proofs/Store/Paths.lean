import ContentTables.Proofs.Store.Running
import ContentTables.Store.Migration

/-!
# Paths through operations

A run of an operation takes one path through its program: the effects that it asks for, each with
the answer it gets, and a result at the end. What holds of every path holds of every run, whatever
the database and the memory.

* `Answered`, `Program.Path`, `Program.transcript`, `Program.path_run` : the paths, and the one that
  a run takes;
* `Operation.path_bind`, `path_ask`, `path_execute` and their like : the paths of each construct;
* `Operation.AsksOnly` : effects of one kind only, on every path, with its rules;
* `Effect.OnSchemas`, `asksOnly_find?`, `asksOnly_get` : schemas are looked up without any other
  effect.
-/

namespace ContentTables

variable {σ α β : Type}

/-- An effect with its answer. -/
abbrev Answered := (e : Effect) × e.Answer

namespace Program

def Path : Program α → List Answered → α → Prop
  | .done a, steps, result => steps = [] ∧ result = a
  | .perform e next, steps, result =>
    ∃ answer rest, steps = ⟨e, answer⟩ :: rest ∧ (next answer).Path rest result

/-- The path that a run takes. -/
def transcript (db : Database σ) : Program α → World σ → List Answered
  | .done _, _ => []
  | .perform e next, w =>
    ⟨e, (w.answer db e).1⟩ :: (next (w.answer db e).1).transcript db (w.answer db e).2

theorem path_run (db : Database σ) (p : Program α) (w : World σ) :
    p.Path (p.transcript db w) (p.run db w).1 := by
  induction p generalizing w with
  | done a => exact ⟨rfl, rfl⟩
  | perform e next ih => exact ⟨_, _, rfl, ih _ _⟩

theorem path_bind {p : Program α} {f : α → Program β} {steps : List Answered} {result : β}
    (h : (p.bind f).Path steps result) :
    ∃ a first rest, p.Path first a ∧ (f a).Path rest result ∧ steps = first ++ rest := by
  induction p generalizing steps with
  | done a => exact ⟨a, [], steps, ⟨rfl, rfl⟩, h, rfl⟩
  | perform e next ih =>
    obtain ⟨answer, tail, rfl, htail⟩ := h
    obtain ⟨a, first, rest, hfirst, hrest, rfl⟩ := ih answer htail
    exact ⟨a, ⟨e, answer⟩ :: first, rest, ⟨answer, first, rfl, hfirst⟩, hrest, rfl⟩

end Program

namespace Operation

variable {x : Operation α} {f : α → Operation β} {steps : List Answered}

def Path (x : Operation α) (steps : List Answered) (result : Except StoreError α) : Prop :=
  x.run.Path steps result

def transcript (db : Database σ) (x : Operation α) (w : World σ) : List Answered :=
  x.run.transcript db w

theorem path_exec (db : Database σ) (x : Operation α) (w : World σ) :
    x.Path (x.transcript db w) (x.exec db w).1 :=
  Program.path_run db x.run w

/-- The first part fails, or its result is handed on. -/
theorem path_bind {result : Except StoreError β} (h : (x >>= f).Path steps result) :
    (∃ e, x.Path steps (.error e) ∧ result = .error e) ∨
      ∃ a first rest, x.Path first (.ok a) ∧ (f a).Path rest result ∧ steps = first ++ rest := by
  change Program.Path (Program.bind x.run (ExceptT.bindCont f)) steps result at h
  obtain ⟨a | a, first, rest, hfirst, hrest, rfl⟩ := Program.path_bind h
  · obtain ⟨rfl, rfl⟩ := hrest
    exact Or.inl ⟨a, (List.append_nil first).symm ▸ hfirst, rfl⟩
  · exact Or.inr ⟨a, first, rest, hfirst, hrest, rfl⟩

theorem path_pure {a : α} {result : Except StoreError α}
    (h : (pure a : Operation α).Path steps result) : steps = [] ∧ result = .ok a := h

theorem path_throw {e : StoreError} {result : Except StoreError α}
    (h : (throw e : Operation α).Path steps result) : steps = [] ∧ result = .error e := h

theorem path_ofExcept {given result : Except StoreError α}
    (h : (ofExcept given).Path steps result) : steps = [] ∧ result = given := h

theorem path_ask {e : Effect} {result : Except StoreError e.Answer}
    (h : (ask e).Path steps result) : ∃ answer, steps = [⟨e, answer⟩] ∧ result = .ok answer := by
  obtain ⟨answer, rest, rfl, rfl, rfl⟩ := h
  exact ⟨answer, rfl, rfl⟩

theorem path_execute {s : Statement} {result : Except StoreError Written}
    (h : (execute s).Path steps result) :
    ∃ answer : Except BackendFault Written, steps = [⟨.execute s, answer⟩] ∧
      result = answer.mapError BackendFault.error := by
  obtain ⟨answer, rest, rfl, hrest⟩ := h
  cases answer with
  | ok written => exact ⟨.ok written, congrArg _ hrest.1, hrest.2⟩
  | error fault => exact ⟨.error fault, congrArg _ hrest.1, hrest.2⟩

theorem path_fetch {s : Statement} {result : Except StoreError (List Row)}
    (h : (fetch s).Path steps result) :
    ∃ answer : Except BackendFault (List Row), steps = [⟨.fetch s, answer⟩] ∧
      result = answer.mapError BackendFault.error := by
  obtain ⟨answer, rest, rfl, hrest⟩ := h
  cases answer with
  | ok rows => exact ⟨.ok rows, congrArg _ hrest.1, hrest.2⟩
  | error fault => exact ⟨.error fault, congrArg _ hrest.1, hrest.2⟩

/-! ## Effects of one kind -/

variable {P Q : Effect → Prop}

/-- On every path all effects are such. -/
def AsksOnly (P : Effect → Prop) (x : Operation α) : Prop :=
  ∀ steps result, x.Path steps result → ∀ step ∈ steps, P step.1

theorem AsksOnly.mono (hx : x.AsksOnly P) (h : ∀ e, P e → Q e) : x.AsksOnly Q :=
  fun _ _ hpath step hstep => h _ (hx _ _ hpath step hstep)

theorem AsksOnly.bind (hx : x.AsksOnly P) (hf : ∀ a, (f a).AsksOnly P) :
    (x >>= f).AsksOnly P := by
  intro steps result h
  rcases path_bind h with ⟨e, hpath, _⟩ | ⟨a, first, rest, hfirst, hrest, rfl⟩
  · exact hx _ _ hpath
  · exact List.forall_mem_append.mpr ⟨hx _ _ hfirst, hf a _ _ hrest⟩

theorem asksOnly_pure (a : α) : (pure a : Operation α).AsksOnly P := by
  intro steps result h
  rw [(path_pure h).1]
  exact nofun

theorem asksOnly_throw (e : StoreError) : (throw e : Operation α).AsksOnly P := by
  intro steps result h
  rw [(path_throw h).1]
  exact nofun

theorem asksOnly_ofExcept (given : Except StoreError α) : (ofExcept given).AsksOnly P := by
  intro steps result h
  rw [(path_ofExcept h).1]
  exact nofun

theorem asksOnly_ask {e : Effect} (he : P e) : (ask e).AsksOnly P := by
  intro steps result h
  obtain ⟨answer, rfl, _⟩ := path_ask h
  exact List.forall_mem_singleton.mpr he

theorem asksOnly_execute {s : Statement} (hs : P (.execute s)) : (execute s).AsksOnly P := by
  intro steps result h
  obtain ⟨answer, rfl, _⟩ := path_execute h
  exact List.forall_mem_singleton.mpr hs

theorem asksOnly_fetch {s : Statement} (hs : P (.fetch s)) : (fetch s).AsksOnly P := by
  intro steps result h
  obtain ⟨answer, rfl, _⟩ := path_fetch h
  exact List.forall_mem_singleton.mpr hs

theorem asksOnly_forM {τ : Type} {g : τ → Operation Unit} {ts : List τ}
    (h : ∀ t ∈ ts, (g t).AsksOnly P) : (ts.forM g).AsksOnly P := by
  induction ts with
  | nil => exact asksOnly_pure ()
  | cons t rest ih =>
    exact AsksOnly.bind (h t List.mem_cons_self) fun _ =>
      ih fun u hu => h u (List.mem_cons_of_mem t hu)

end Operation

open Operation

/-! ## Looking up schemas -/

/-- Reading, and what is in memory of the schemas. -/
def Effect.OnSchemas : Effect → Prop
  | .fetch s => "SELECT ".toList <+: s.sql.toList
  | .cachedSchema _ | .schemaGeneration | .keepSchema .. | .forgetSchema _ => True
  | _ => False

theorem selectSchema_starts (naming : TableNaming) (table : String) :
    "SELECT ".toList <+: (Records.selectSchema naming table).sql.toList := by
  have hword : "SELECT ".toList <+: "SELECT \x60columns\x60 FROM ".toList := by decide
  unfold Records.selectSchema
  simp only [String.toList_append, List.append_assoc]
  exact hword.trans (List.prefix_append _ _)

theorem asksOnly_find? (naming : TableNaming) (table : String) :
    (Records.find? naming table).AsksOnly Effect.OnSchemas := by
  unfold Records.find?
  refine AsksOnly.bind (asksOnly_ask trivial) fun cached => ?_
  cases cached with
  | some schema => exact asksOnly_pure _
  | none =>
    refine AsksOnly.bind (asksOnly_ask trivial) fun generation => ?_
    refine AsksOnly.bind (asksOnly_fetch (selectSchema_starts naming table)) fun rows => ?_
    cases rows.head? with
    | none => exact asksOnly_pure _
    | some record =>
      refine AsksOnly.bind (asksOnly_ofExcept _) fun schema => ?_
      exact AsksOnly.bind (asksOnly_ask trivial) fun _ => asksOnly_pure _

theorem asksOnly_get (naming : TableNaming) (table : String) :
    (Records.get naming table).AsksOnly Effect.OnSchemas := by
  unfold Records.get
  refine AsksOnly.bind (asksOnly_find? naming table) fun found => ?_
  cases found with
  | some schema => exact asksOnly_pure _
  | none => exact asksOnly_throw _

end ContentTables
