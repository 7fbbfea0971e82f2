import ContentTables.Cache.Grouped
import ContentTables.Query.Select
import ContentTables.Schema.Table

/-!
# What the store keeps in memory

* `Caches` : schemas by table, all in one group, and answers of queries by table and key, one group
  for each table;
* for schemas and for answers: look up, read the generation, keep, forget. Forgetting the rows of a
  table forgets all its answers;
* `schema?_forgetSchema`, `schema?_keepSchema` : the schemas in memory afterwards.
-/

namespace ContentTables

structure Caches where
  schemas : GroupedCache TableSchema
  rows : GroupedCache QueryResult

namespace Caches

def empty : Caches := ⟨.empty, .empty⟩

instance : Inhabited Caches := ⟨empty⟩

/-- The one group of the schemas. -/
def schemaGroup : String := "schema"

def schema? (c : Caches) (table : String) : Option TableSchema := c.schemas.get? schemaGroup table

def schemaGeneration (c : Caches) : Nat := c.schemas.generation schemaGroup

def keepSchema (c : Caches) (table : String) (schema : TableSchema) (generation : Nat) :
    Bool × Caches :=
  let (kept, schemas) := c.schemas.keep schemaGroup table schema generation
  (kept, { c with schemas })

def forgetSchema (c : Caches) (table : String) : Caches :=
  { c with schemas := c.schemas.clear schemaGroup table }

def rows? (c : Caches) (table key : String) : Option QueryResult := c.rows.get? table key

def rowsGeneration (c : Caches) (table : String) : Nat := c.rows.generation table

def keepRows (c : Caches) (table key : String) (result : QueryResult) (generation : Nat) :
    Bool × Caches :=
  let (kept, rows) := c.rows.keep table key result generation
  (kept, { c with rows })

def forgetRows (c : Caches) (table : String) : Caches :=
  { c with rows := c.rows.clearGroup table }

theorem schema?_forgetSchema (c : Caches) (table key : String) :
    (c.forgetSchema table).schema? key = if key = table then none else c.schema? key := by
  simp [schema?, forgetSchema, GroupedCache.get?_clear]

/-- A schema in memory is the one that was to be kept, or was there before. -/
theorem schema?_keepSchema {c : Caches} {table key : String} {schema cached : TableSchema}
    {generation : Nat} (h : (c.keepSchema table schema generation).2.schema? key = some cached) :
    c.schemaGeneration = generation ∧ key = table ∧ cached = schema ∨
      c.schema? key = some cached := by
  change (c.schemas.keep schemaGroup table schema generation).2.get? schemaGroup key = _ at h
  unfold GroupedCache.keep at h
  split at h
  · rename_i hsame
    rw [GroupedCache.get?_set] at h
    split at h
    · rename_i hkey
      exact Or.inl ⟨hsame, hkey.2, (Option.some.inj h).symm⟩
    · exact Or.inr h
  · exact Or.inr h

end Caches

end ContentTables
