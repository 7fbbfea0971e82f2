import ContentTables.Script.Backend

/-!
# Holding a program

* `Paused` : a program that ran to its end, or that is held at a statement until it is resumed;
* `Program.runUntil` : runs a program up to the first statement of which something holds. A
  statement that reads is held once it has its rows, a statement that writes before it has any
  effect; a statement that fails is never held;
* `Program.complete_runUntil` : a program that is held and goes on at once does what it would have
  done without being held.
-/

namespace ContentTables

/-- What a program of the store runs against in a script. -/
abbrev ScriptedWorld := World Backend

inductive Paused (α : Type) where
  | finished (result : α) (world : ScriptedWorld)
  | held (world : ScriptedWorld) (resume : ScriptedWorld → α × ScriptedWorld)

/-- Goes on at once. -/
def Paused.complete {α : Type} : Paused α → α × ScriptedWorld
  | .finished result w => (result, w)
  | .held w resume => resume w

namespace Program

variable {α : Type}

def runUntil (holds : Statement → Bool) : Program α → ScriptedWorld → Paused α
  | .done a, w => .finished a w
  | .perform (.execute s) next, w =>
    let (fault, database) := w.database.receive s
    match fault with
    | some fault => (next (.error fault)).runUntil holds { w with database }
    | none =>
      if holds s then
        .held { w with database } fun w =>
          let (written, database) := w.database.write s
          (next written).run scripted { w with database }
      else
        let (written, database) := database.write s
        (next written).runUntil holds { w with database }
  | .perform (.fetch s) next, w =>
    let (rows, database) := scripted.fetch w.database s
    match rows with
    | .error fault => (next (.error fault)).runUntil holds { w with database }
    | .ok rows =>
      if holds s then .held { w with database } ((next (.ok rows)).run scripted)
      else (next (.ok rows)).runUntil holds { w with database }
  | .perform e next, w =>
    let (answer, w) := w.answer scripted e
    (next answer).runUntil holds w

/-- Holding a program changes nothing if it goes on at once. -/
theorem complete_runUntil (holds : Statement → Bool) (p : Program α) (w : ScriptedWorld) :
    (p.runUntil holds w).complete = p.run scripted w := by
  induction p generalizing w with
  | done a => rfl
  | perform e next ih =>
    cases e with
    | execute s =>
      simp only [runUntil, run, World.answer, scripted, Backend.execute]
      rcases w.database.receive s with ⟨_ | fault, database⟩
      · by_cases h : holds s
        · simp [h, Paused.complete]
        · simp [h, ih, scripted]
      · simp [ih, scripted]
    | fetch s =>
      simp only [runUntil, run, World.answer, scripted, Backend.fetch]
      rcases w.database.receive s with ⟨_ | fault, database⟩
      · by_cases h : holds s
        · simp [h, Paused.complete]
        · simp [h, ih, scripted]
      · simp [ih, scripted]
    | _ => simp only [runUntil, run, ih]

end Program

end ContentTables
