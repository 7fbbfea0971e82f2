import ContentTables.ContentType.Lifecycle
import ContentTables.Proofs.Store.Migrating
import ContentTables.Store.CoreTables

/-!
# Planned migrations

Whatever is asked of the store that concerns tables comes down to a list of migrations that is known
before the first of them starts. They are done in order, up to the first that fails.

* `TableRequest`, `TableRequest.operation` : a migration, the installation, change or removal of a
  content type, or the installation of the core tables;
* `TableRequest.plan`, `TableRequest.prepare` : its migrations, and what comes before them;
* `TableRequest.operation_eq` : the request does just that;
* `session` : one request after the other, whatever became of those before.
-/

namespace ContentTables

variable {α β : Type}

/-- Filters may have been added or removed from one request to the next. -/
inductive TableRequest where
  | migrate (call : MigrationCall)
  | installType (filters : TableFilters) (d : TypeDescriptor)
  | updateType (filters : TableFilters) (new old : TypeDescriptor)
  | uninstallType (filters : TableFilters) (d : TypeDescriptor)
  | installCoreTables

namespace TableRequest

def operation (naming : TableNaming) : TableRequest → Operation Unit
  | .migrate call => call.operation naming
  | .installType filters d => ContentType.install naming filters d
  | .updateType filters new old => ContentType.update naming filters new old
  | .uninstallType filters d => ContentType.uninstall naming filters d
  | .installCoreTables => CoreTables.install naming

/-- What becomes of one table of a type that changes. -/
def moves (wanted : List ComposedTable) (slug : String) (previous : ComposedTable) :
    List MigrationCall :=
  if !(wanted.any (·.role == previous.role)) then [.drop previous.table]
  else if previous.role.tableName slug ≠ previous.table then
    [.rename previous.table (previous.role.tableName slug)]
  else []

def plan : TableRequest → Except StoreError (List MigrationCall)
  | .migrate call => .ok [call]
  | .installType filters d => do
    let tables ← d.compose filters
    .ok (tables.map fun t => .create t.table t.schema)
  | .updateType filters new old => do
    let wanted ← new.compose filters
    let existing ← old.compose filters
    .ok (existing.flatMap (moves wanted new.slug) ++
      wanted.map fun t => .reconcile t.table t.schema)
  | .uninstallType filters d => do
    let tables ← d.compose filters
    .ok (tables.map fun t => .drop t.table)
  | .installCoreTables => .ok (coreTables.map fun entry => .reconcile entry.1 entry.2)

/-- The connection is checked and the metadata table is created before core tables are installed. -/
def prepare (naming : TableNaming) : TableRequest → Operation Unit
  | .installCoreTables => do
    let _ ← Operation.fetch CoreTables.ping
    Records.createMetadataTable naming
  | _ => pure ()

/-- Up to the first that fails. -/
def inOrder (naming : TableNaming) (calls : List MigrationCall) : Operation Unit :=
  calls.forM (·.operation naming)

theorem ofExcept_bind_bind {γ : Type} (given : Except StoreError α) (g : α → Except StoreError β)
    (f : β → Operation γ) : Operation.ofExcept (given >>= g) >>= f =
      Operation.ofExcept given >>= fun a => Operation.ofExcept (g a) >>= f := by
  cases given <;> rfl

section InOrder
variable (naming : TableNaming)

theorem inOrder_append (calls others : List MigrationCall) :
    inOrder naming (calls ++ others) = (do
      inOrder naming calls
      inOrder naming others) := by
  simp only [inOrder, List.forM_eq_forM, List.forM_append]

theorem inOrder_map {τ : Type} (g : τ → MigrationCall) (ts : List τ) :
    inOrder naming (ts.map g) = ts.forM fun t => (g t).operation naming := by
  simp only [inOrder, List.forM_eq_forM, List.forM_map]

theorem inOrder_flatMap {τ : Type} (g : τ → List MigrationCall) (ts : List τ) :
    inOrder naming (ts.flatMap g) = ts.forM fun t => inOrder naming (g t) := by
  induction ts with
  | nil => rfl
  | cons t ts ih =>
    rw [List.flatMap_cons, inOrder_append, ih]
    rfl

theorem inOrder_single (call : MigrationCall) :
    inOrder naming [call] = call.operation naming :=
  show (call.operation naming >>= fun _ => pure ()) = _ from bind_pure_unit

theorem inOrder_moves (wanted : List ComposedTable) (slug : String) (previous : ComposedTable) :
    inOrder naming (moves wanted slug previous) =
      ContentType.moveTable naming wanted slug previous := by
  unfold moves ContentType.moveTable
  simp only
  split
  · exact inOrder_single naming _
  · split
    · exact inOrder_single naming _
    · rfl

theorem operation_eq (request : TableRequest) : request.operation naming = (do
    request.prepare naming
    inOrder naming (← Operation.ofExcept request.plan)) := by
  cases request with
  | migrate call => exact (inOrder_single naming call).symm
  | installType filters d =>
    refine Eq.trans ?_ (ofExcept_bind_bind (d.compose filters) _ (inOrder naming)).symm
    simp only [Operation.ofExcept_ok_bind, inOrder_map]
    rfl
  | updateType filters new old =>
    refine Eq.trans ?_ (ofExcept_bind_bind (new.compose filters) _ (inOrder naming)).symm
    simp only [ofExcept_bind_bind, Operation.ofExcept_ok_bind, inOrder_append, inOrder_flatMap,
      inOrder_map, inOrder_moves]
    rfl
  | uninstallType filters d =>
    refine Eq.trans ?_ (ofExcept_bind_bind (d.compose filters) _ (inOrder naming)).symm
    simp only [Operation.ofExcept_ok_bind, inOrder_map]
    rfl
  | installCoreTables =>
    show CoreTables.install naming =
      (prepare naming .installCoreTables >>= fun _ => inOrder naming _)
    rw [inOrder_map, prepare, bind_assoc]
    rfl

end InOrder

end TableRequest

/-- One request after the other. A failure does not keep back the next. -/
def session (naming : TableNaming) (requests : List TableRequest) :
    Program (List (Except StoreError Unit)) :=
  requests.mapM fun request => (request.operation naming).run

theorem session_cons (naming : TableNaming) (request : TableRequest) (rest : List TableRequest) :
    session naming (request :: rest) =
      Program.bind (request.operation naming).run fun result =>
        Program.bind (session naming rest) fun results => pure (result :: results) :=
  List.mapM_cons

end ContentTables
