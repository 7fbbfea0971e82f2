import ContentTables.Store.Rows

/-!
# A write is followed by forgetting

* `Program.ForgetsNext` : behind every statement that writes and succeeds, forgetting the rows of a
  table is the very next effect;
* `Operation.ForgetsNext.bind` and the rules for single effects;
* `forgetsNext_selectCached`, `forgetsNext_insert`, `forgetsNext_update`, `forgetsNext_delete`.
-/

namespace ContentTables

variable {α β : Type} {table : String}

namespace Program

/-- The next effect is to forget the rows of that table. -/
def Forgets (table : String) (p : Program α) : Prop :=
  ∃ rest, p = .perform (.forgetRows table) rest

/-- What has to follow an effect. -/
def ForgetsBehind (table : String) : (e : Effect) → (e.Answer → Program α) → Prop
  | .execute _, next => ∀ written, (next (.ok written)).Forgets table
  | _, _ => True

def ForgetsNext (table : String) : Program α → Prop
  | .done _ => True
  | .perform e next => ForgetsBehind table e next ∧ ∀ a, (next a).ForgetsNext table

theorem ForgetsNext.bind {p : Program α} {f : α → Program β} (hp : p.ForgetsNext table)
    (hf : ∀ a, (f a).ForgetsNext table) : (p.bind f).ForgetsNext table := by
  induction p with
  | done a => exact hf a
  | perform e next ih =>
    refine ⟨?_, fun a => ih a (hp.2 a)⟩
    cases e with
    | execute s =>
      intro written
      obtain ⟨rest, hrest⟩ := hp.1 written
      exact ⟨fun a => (rest a).bind f, congrArg (Program.bind · f) hrest⟩
    | _ => trivial

end Program

namespace Operation

def ForgetsNext (table : String) (x : Operation α) : Prop := x.run.ForgetsNext table

theorem ForgetsNext.bind {x : Operation α} {f : α → Operation β} (hx : x.ForgetsNext table)
    (hf : ∀ a, (f a).ForgetsNext table) : (x >>= f).ForgetsNext table := by
  show Program.ForgetsNext table (Program.bind x.run (ExceptT.bindCont f))
  refine Program.ForgetsNext.bind hx fun result => ?_
  cases result with
  | ok a => exact hf a
  | error e => exact trivial

theorem forgetsNext_pure (a : α) : (pure a : Operation α).ForgetsNext table := trivial

theorem forgetsNext_throw (e : StoreError) : (throw e : Operation α).ForgetsNext table := trivial

theorem forgetsNext_ofExcept (result : Except StoreError α) :
    (ofExcept result).ForgetsNext table := trivial

theorem forgetsNext_ask {e : Effect} (he : ∀ s, e ≠ .execute s) : (ask e).ForgetsNext table := by
  refine ⟨?_, fun _ => trivial⟩
  cases e with
  | execute s => exact absurd rfl (he s)
  | _ => trivial

theorem forgetsNext_fetch (s : Statement) : (fetch s).ForgetsNext table := by
  refine ForgetsNext.bind (forgetsNext_ask nofun) fun answer => ?_
  cases answer with
  | ok rows => exact forgetsNext_pure rows
  | error fault => exact forgetsNext_throw fault.error

/-- The one way to write: the statement, and forgetting the rows when it has succeeded. -/
theorem forgetsNext_write {s : Statement} {f : Written → Operation β}
    (hf : ∀ written, (f written).ForgetsNext table) :
    (do
      let written ← execute s
      Rows.forget table
      f written : Operation β).ForgetsNext table := by
  refine ⟨fun written => ⟨_, rfl⟩, fun answer => ?_⟩
  cases answer with
  | ok written => exact ⟨trivial, fun _ => hf written⟩
  | error fault => exact trivial

end Operation

open Operation

theorem forgetsNext_find? (naming : TableNaming) (t : String) :
    (Records.find? naming t).ForgetsNext table := by
  unfold Records.find?
  refine ForgetsNext.bind (forgetsNext_ask nofun) fun found => ?_
  cases found with
  | some schema => exact forgetsNext_pure _
  | none =>
    refine ForgetsNext.bind (forgetsNext_ask nofun) fun generation => ?_
    refine ForgetsNext.bind (forgetsNext_fetch _) fun rows => ?_
    cases rows.head? with
    | none => exact forgetsNext_pure _
    | some record =>
      refine ForgetsNext.bind (forgetsNext_ofExcept _) fun schema => ?_
      exact ForgetsNext.bind (forgetsNext_ask nofun) fun _ => forgetsNext_pure _

theorem forgetsNext_get (naming : TableNaming) (t : String) :
    (Records.get naming t).ForgetsNext table := by
  unfold Records.get
  refine ForgetsNext.bind (forgetsNext_find? naming t) fun found => ?_
  cases found with
  | none => exact forgetsNext_throw _
  | some schema => exact forgetsNext_pure _

theorem forgetsNext_rows (naming : TableNaming) (q : SelectQuery) :
    (Rows.get naming q).ForgetsNext table := by
  unfold Rows.get
  refine ForgetsNext.bind (forgetsNext_fetch _) fun rows => ?_
  split
  · exact forgetsNext_pure _
  · split
    · exact forgetsNext_pure _
    · exact ForgetsNext.bind (forgetsNext_get naming q.table) fun _ => forgetsNext_pure _

theorem forgetsNext_selectCached (naming : TableNaming) (q : SelectQuery) :
    (Rows.selectCached naming q).ForgetsNext table := by
  unfold Rows.selectCached
  refine ForgetsNext.bind (forgetsNext_ask nofun) fun found => ?_
  cases found with
  | some result => exact forgetsNext_pure _
  | none =>
    refine ForgetsNext.bind (forgetsNext_ask nofun) fun generation => ?_
    refine ForgetsNext.bind (forgetsNext_rows naming q) fun result => ?_
    exact ForgetsNext.bind (forgetsNext_ask nofun) fun _ => forgetsNext_pure _

theorem forgetsNext_insert (naming : TableNaming) (now table : String) (row : Row) :
    (Rows.insert naming now table row).ForgetsNext table := by
  unfold Rows.insert
  refine ForgetsNext.bind (forgetsNext_get naming table) fun schema => ?_
  refine ForgetsNext.bind (forgetsNext_ofExcept _) fun prepared => ?_
  refine forgetsNext_write fun written => ?_
  split
  · exact forgetsNext_pure _
  · exact forgetsNext_pure _

theorem forgetsNext_update (naming : TableNaming) (table : String) (row : Row)
    (condition : Condition) : (Rows.update naming table row condition).ForgetsNext table := by
  unfold Rows.update
  refine ForgetsNext.bind (forgetsNext_get naming table) fun schema => ?_
  refine ForgetsNext.bind (forgetsNext_ofExcept _) fun prepared => ?_
  refine ForgetsNext.bind (forgetsNext_ofExcept _) fun statement => ?_
  exact forgetsNext_write fun written => forgetsNext_pure _

theorem forgetsNext_delete (naming : TableNaming) (table : String) (condition : Condition)
    (offset limit : Option UInt64) :
    (Rows.delete naming table condition offset limit).ForgetsNext table := by
  unfold Rows.delete
  exact forgetsNext_write fun written => forgetsNext_pure _

end ContentTables
