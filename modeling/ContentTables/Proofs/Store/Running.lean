import ContentTables.Store.Run

/-!
# Running operations

* `coldWorld` : a world with nothing in memory;
* `Operation.exec` : the result of an operation that runs alone, and the world behind it;
* `exec_bind`, `exec_ask_bind`, `exec_execute`, `exec_fetch` : operations run part by part, and a
  failure ends them;
* `exec_bind_eq_ok_iff` : what succeeds has succeeded in each part.
-/

namespace ContentTables

variable {σ α β : Type} (db : Database σ)

/-- A world at that time, with nothing in memory. -/
def coldWorld (n : Nat) : World Nat := { database := n, handlers := { hook := migrationHook } }

namespace World

/-- Telling the handlers changes nothing else. -/
theorem announce_same (w : World σ) (event : MigrationEvent) :
    (w.announce event).database = w.database ∧ (w.announce event).caches = w.caches := by
  unfold announce
  rcases w.handlers.trigger event with ⟨called, _⟩
  exact ⟨rfl, rfl⟩

theorem answer_execute (w : World σ) (s : Statement) : w.answer db (.execute s) =
    ((db.execute w.database s).1, { w with database := (db.execute w.database s).2 }) := rfl

theorem answer_fetch (w : World σ) (s : Statement) : w.answer db (.fetch s) =
    ((db.fetch w.database s).1, { w with database := (db.fetch w.database s).2 }) := rfl

end World

namespace Operation

def exec (x : Operation α) (w : World σ) : Except StoreError α × World σ := x.run.run db w

@[simp] theorem exec_ofExcept (result : Except StoreError α) (w : World σ) :
    (ofExcept result).exec db w = (result, w) := rfl

theorem ofExcept_ok_bind (a : α) (f : α → Operation β) : ofExcept (.ok a) >>= f = f a := rfl

theorem exec_bind (x : Operation α) (f : α → Operation β) (w : World σ) :
    (x >>= f).exec db w =
      match x.exec db w with
      | (.ok a, w') => (f a).exec db w'
      | (.error e, w') => (.error e, w') := by
  show Program.run db (Program.bind x.run (ExceptT.bindCont f)) w = _
  rw [Program.run_bind]
  unfold exec
  rcases x.run.run db w with ⟨a | a, w'⟩ <;> rfl

theorem exec_bind_ok {x : Operation α} {f : α → Operation β} {w w' : World σ} {a : α}
    (h : x.exec db w = (.ok a, w')) : (x >>= f).exec db w = (f a).exec db w' := by
  rw [exec_bind, h]

theorem exec_bind_error {x : Operation α} {f : α → Operation β} {w w' : World σ} {e : StoreError}
    (h : x.exec db w = (.error e, w')) : (x >>= f).exec db w = (.error e, w') := by
  rw [exec_bind, h]

theorem exec_bind_eq_ok_iff {x : Operation α} {f : α → Operation β} {w w' : World σ} {b : β} :
    (x >>= f).exec db w = (.ok b, w') ↔
      ∃ a v, x.exec db w = (.ok a, v) ∧ (f a).exec db v = (.ok b, w') := by
  rw [exec_bind]
  rcases x.exec db w with ⟨e | a, v⟩
  · exact iff_of_false nofun (by rintro ⟨a, v, h, _⟩; exact nomatch h)
  · refine ⟨fun h => ⟨a, v, rfl, h⟩, ?_⟩
    rintro ⟨_, _, ⟨⟩, h⟩
    exact h

theorem exec_ask_bind (e : Effect) (f : e.Answer → Operation α) (w : World σ) :
    (ask e >>= f).exec db w = (f (w.answer db e).1).exec db (w.answer db e).2 := rfl

theorem exec_execute (s : Statement) (w : World σ) :
    (execute s).exec db w =
      ((db.execute w.database s).1.mapError BackendFault.error,
        { w with database := (db.execute w.database s).2 }) := by
  unfold execute
  rw [exec_ask_bind, World.answer_execute]
  cases (db.execute w.database s).1 <;> rfl

theorem exec_fetch (s : Statement) (w : World σ) :
    (fetch s).exec db w =
      ((db.fetch w.database s).1.mapError BackendFault.error,
        { w with database := (db.fetch w.database s).2 }) := by
  unfold fetch
  rw [exec_ask_bind, World.answer_fetch]
  cases (db.fetch w.database s).1 <;> rfl

end Operation

end ContentTables
