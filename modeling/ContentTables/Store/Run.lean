import ContentTables.Hook.Pipeline
import ContentTables.Store.Program

/-!
# Running programs

* `Database` : how a database answers statements, in a state of its own;
* `World` : what a program runs against: the memory of the store, the state of the database, and
  the handlers of migrations with what they were told so far;
* `World.answer` : the answer to one effect;
* `Program.run` : a whole program, with nothing else running.
-/

namespace ContentTables

structure Database (σ : Type) where
  execute : σ → Statement → Except BackendFault Written × σ
  fetch : σ → Statement → Except BackendFault (List Row) × σ

structure World (σ : Type) where
  caches : Caches := .empty
  database : σ
  handlers : EventPipeline MigrationEvent
  /-- The handlers called, each with its event. -/
  heard : List (String × MigrationEvent) := []

namespace World

variable {σ : Type}

def announce (w : World σ) (event : MigrationEvent) : World σ :=
  let (called, _) := w.handlers.trigger event
  { w with heard := w.heard ++ called.map fun name => (name, event) }

def answer (db : Database σ) (w : World σ) : (e : Effect) → e.Answer × World σ
  | .execute s =>
    let (written, database) := db.execute w.database s
    (written, { w with database })
  | .fetch s =>
    let (rows, database) := db.fetch w.database s
    (rows, { w with database })
  | .cachedSchema table => (w.caches.schema? table, w)
  | .schemaGeneration => (w.caches.schemaGeneration, w)
  | .keepSchema table schema generation =>
    let (kept, caches) := w.caches.keepSchema table schema generation
    (kept, { w with caches })
  | .forgetSchema table => ((), { w with caches := w.caches.forgetSchema table })
  | .cachedRows table key => (w.caches.rows? table key, w)
  | .rowsGeneration table => (w.caches.rowsGeneration table, w)
  | .keepRows table key result generation =>
    let (kept, caches) := w.caches.keepRows table key result generation
    (kept, { w with caches })
  | .forgetRows table => ((), { w with caches := w.caches.forgetRows table })
  | .announce event => ((), w.announce event)

end World

namespace Program

variable {σ α β : Type}

def run (db : Database σ) : Program α → World σ → α × World σ
  | .done a, w => (a, w)
  | .perform e next, w =>
    let (answer, w) := w.answer db e
    (next answer).run db w

@[simp] theorem run_pure (db : Database σ) (a : α) (w : World σ) :
    (pure a : Program α).run db w = (a, w) := rfl

/-- Two programs one after the other run one after the other. -/
theorem run_bind (db : Database σ) (p : Program α) (f : α → Program β) (w : World σ) :
    (p.bind f).run db w = (f (p.run db w).1).run db (p.run db w).2 := by
  induction p generalizing w with
  | done a => rfl
  | perform e next ih => simp only [bind, run, ih]

end Program

end ContentTables
