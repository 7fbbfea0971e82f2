import ContentTables.Cache.Caches
import ContentTables.Sql.Statement
import ContentTables.Store.Event

/-!
# Programs of the store

An operation of the store is a program: a finite tree of the effects it asks for, each followed by
what it does with the answer. A program decides nothing about how effects are answered, so the same
program runs against a scripted database, next to others, or with failures put in.

* `Effect`, `Effect.Answer` : what a program can ask for, and the type of each answer. Statements
  go to the database; all other effects are on memory and happen at once;
* `Program` : the tree, a monad;
* `Operation` : a program that may fail with a `StoreError`.
-/

namespace ContentTables

/-- Why the database did not answer a statement. -/
inductive BackendFault where
  | database (reason : String)
  | worker (reason : String)
deriving DecidableEq

def BackendFault.error : BackendFault → StoreError
  | .database reason => .database reason
  | .worker reason => .worker reason

/-- What a statement that writes reports back; the id is zero where none was generated. -/
structure Written where
  affected : UInt64
  insertId : UInt64
deriving DecidableEq, Inhabited

inductive Effect where
  | execute (s : Statement)
  | fetch (s : Statement)
  | cachedSchema (table : String)
  | schemaGeneration
  | keepSchema (table : String) (schema : TableSchema) (generation : Nat)
  | forgetSchema (table : String)
  | cachedRows (table key : String)
  | rowsGeneration (table : String)
  | keepRows (table key : String) (result : QueryResult) (generation : Nat)
  | forgetRows (table : String)
  /-- Tells the handlers of migrations; whether they fail is no concern of the program. -/
  | announce (event : MigrationEvent)

@[reducible] def Effect.Answer : Effect → Type
  | .execute _ => Except BackendFault Written
  | .fetch _ => Except BackendFault (List Row)
  | .cachedSchema _ => Option TableSchema
  | .schemaGeneration => Nat
  | .keepSchema .. => Bool
  | .forgetSchema _ => Unit
  | .cachedRows .. => Option QueryResult
  | .rowsGeneration _ => Nat
  | .keepRows .. => Bool
  | .forgetRows _ => Unit
  | .announce _ => Unit

inductive Program (α : Type) where
  | done (result : α)
  | perform (e : Effect) (next : e.Answer → Program α)

namespace Program

variable {α β : Type}

def bind : Program α → (α → Program β) → Program β
  | .done a, f => f a
  | .perform e next, f => .perform e fun answer => (next answer).bind f

instance : Monad Program where
  pure := .done
  bind := bind

/-- The program that asks for one effect. -/
def ask (e : Effect) : Program e.Answer := .perform e .done

theorem bind_done (p : Program α) : p.bind .done = p := by
  induction p with
  | done a => rfl
  | perform e next ih => simp only [bind, ih]

theorem bind_assoc {γ : Type} (p : Program α) (f : α → Program β) (g : β → Program γ) :
    (p.bind f).bind g = p.bind fun a => (f a).bind g := by
  induction p with
  | done a => rfl
  | perform e next ih => simp only [bind, ih]

instance : LawfulMonad Program :=
  LawfulMonad.mk' Program
    (fun p => by
      show p.bind (fun a => .done a) = p
      exact bind_done p)
    (fun _ _ => rfl) bind_assoc

end Program

abbrev Operation (α : Type) := ExceptT StoreError Program α

namespace Operation

variable {α : Type}

def ask (e : Effect) : Operation e.Answer := ExceptT.lift (Program.ask e)

def ofExcept (result : Except StoreError α) : Operation α := ExceptT.mk (.done result)

def execute (s : Statement) : Operation Written := do
  match ← ask (.execute s) with
  | .ok written => pure written
  | .error fault => throw fault.error

def fetch (s : Statement) : Operation (List Row) := do
  match ← ask (.fetch s) with
  | .ok rows => pure rows
  | .error fault => throw fault.error

end Operation

end ContentTables
