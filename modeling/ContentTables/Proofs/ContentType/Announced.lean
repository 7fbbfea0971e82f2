import ContentTables.Proofs.ContentType.Planned
import ContentTables.Proofs.Store.Announcing

/-!
# Events of whole sessions

A request announces one event for each of its migrations that has written its record, in order, and
stops at the first migration that fails. Handlers are told of the events, and whatever they answer,
nothing else depends on them.

* `MigrationCall.started`, `TableRequest.started`, `startedIn` : the migrations that are started,
  each with the world in which it starts;
* `committedChanges`, `shows_inOrder`, `shows_request`, `shows_session` : their events and writes
  are all that is shown;
* `events_exact` : the events of a session, the handlers called for them, and that the handlers
  make no other difference.
-/

namespace ContentTables

variable {σ : Type} (naming : TableNaming) (db : Database σ)

def MigrationCall.started : List MigrationCall → World σ → List (MigrationCall × World σ)
  | [], _ => []
  | call :: rest, w => (call, w) ::
    match (call.operation naming).exec db w with
    | (.ok _, w') => started rest w'
    | (.error _, _) => []

def TableRequest.started (request : TableRequest) (w : World σ) : List (MigrationCall × World σ) :=
  match (request.prepare naming).exec db w, request.plan with
  | (.ok _, w'), .ok calls => MigrationCall.started naming db calls w'
  | _, _ => []

def startedIn : List TableRequest → World σ → List (MigrationCall × World σ)
  | [], _ => []
  | request :: rest, w =>
    request.started naming db w ++ startedIn rest ((request.operation naming).exec db w).2

/-- What these migrations announce and write. -/
def committedChanges (started : List (MigrationCall × World σ)) : List CommittedChange :=
  started.filterMap fun c => c.1.committed naming db c.2

theorem committedChanges_cons (c : MigrationCall × World σ)
    (started : List (MigrationCall × World σ)) : committedChanges naming db (c :: started) =
      (c.1.committed naming db c.2).toList ++ committedChanges naming db started := by
  unfold committedChanges
  rw [List.filterMap_cons]
  cases c.1.committed naming db c.2 <;> rfl

/-- The events and the writes of a run are those of the migrations. -/
def ShowsStarted (steps : List Answered) (started : List (MigrationCall × World σ)) : Prop :=
  Shows naming steps ((committedChanges naming db started).map Prod.fst)
    ((committedChanges naming db started).map Prod.snd)

theorem ShowsStarted.append {naming : TableNaming} {db : Database σ} {first rest : List Answered}
    {started started' : List (MigrationCall × World σ)}
    (hfirst : ShowsStarted naming db first started) (hrest : ShowsStarted naming db rest started') :
    ShowsStarted naming db (first ++ rest) (started ++ started') := by
  unfold ShowsStarted committedChanges at *
  rw [List.filterMap_append, List.map_append, List.map_append]
  exact hfirst.append hrest

theorem shows_inOrder (calls : List MigrationCall) (w : World σ) :
    ShowsStarted naming db ((TableRequest.inOrder naming calls).transcript db w)
      (MigrationCall.started naming db calls w) := by
  induction calls generalizing w with
  | nil => exact ⟨rfl, rfl⟩
  | cons call rest ih =>
    have hcall := MigrationCall.commitsAt_operation naming db w call
    have hsplit : TableRequest.inOrder naming (call :: rest) =
      (call.operation naming >>= fun _ => TableRequest.inOrder naming rest) := rfl
    unfold ShowsStarted MigrationCall.started
    rw [hsplit, Operation.transcript_bind, committedChanges_cons, List.map_append, List.map_append]
    refine Shows.append hcall ?_
    rcases (call.operation naming).exec db w with ⟨e | _, w'⟩
    · exact ⟨rfl, rfl⟩
    · exact ih w'

theorem quiet_prepare (request : TableRequest) :
    (request.prepare naming).AsksOnly (Effect.Quiet naming) := by
  cases request with
  | installCoreTables =>
    exact Operation.AsksOnly.bind (Operation.asksOnly_fetch trivial) fun _ =>
      Operation.quiet_define naming (Definition.defines_createMetadataTable naming)
  | _ => exact Operation.asksOnly_pure ()

theorem shows_request (request : TableRequest) (w : World σ) :
    ShowsStarted naming db ((request.operation naming).transcript db w)
      (request.started naming db w) := by
  have hprepare := quiet_prepare naming request _ _ (Operation.path_exec db _ w)
  rw [TableRequest.operation_eq, Operation.transcript_bind]
  refine Shows.behind hprepare ?_
  unfold TableRequest.started
  rcases (request.prepare naming).exec db w with ⟨e | _, w'⟩
  · exact ⟨rfl, rfl⟩
  · cases hplan : request.plan with
    | error e => exact ⟨rfl, rfl⟩
    | ok calls => exact shows_inOrder naming db calls w'

theorem shows_session (requests : List TableRequest) (w : World σ) :
    ShowsStarted naming db ((session naming requests).transcript db w)
      (startedIn naming db requests w) := by
  induction requests generalizing w with
  | nil => exact ⟨rfl, rfl⟩
  | cons request rest ih =>
    rw [session_cons, Program.transcript_bind, Program.transcript_bind]
    refine (shows_request naming db request w).append ?_
    exact (List.append_nil _).symm ▸ ih _

/-- In every session, from every world and whatever fails: the events announced are those of the
migrations that have written their records, one for each, with that write; a migration shows neither
exactly if it fails or is a reconciliation that changes nothing. The handlers are called for these
events, and with any others in their place everything else is the same. -/
theorem events_exact {σ : Type} (naming : TableNaming) (db : Database σ)
    (requests : List TableRequest) (w : World σ) :
    let steps := (session naming requests).transcript db w
    let started := startedIn naming db requests w
    announced steps = (committedChanges naming db started).map Prod.fst ∧
    recordWrites naming steps = (committedChanges naming db started).map Prod.snd ∧
    (∀ c ∈ started, c.1.committed naming db c.2 = none ↔
      (∃ e, ((c.1.operation naming).exec db c.2).1 = .error e) ∨
        ∃ table desired, c.1 = .reconcile table desired ∧
          ((Migration.reconcile naming table desired).exec db c.2).1 = .ok .unchanged) ∧
    ((session naming requests).run db w).2.heard =
      w.heard ++ (announced steps).flatMap w.called ∧
    ∀ handlers heard, let w' := { w with handlers, heard }
      ((session naming requests).run db w').1 = ((session naming requests).run db w).1 ∧
      (session naming requests).transcript db w' = steps ∧
      ((session naming requests).run db w').2.database =
        ((session naming requests).run db w).2.database ∧
      ((session naming requests).run db w').2.caches =
        ((session naming requests).run db w).2.caches := by
  intro steps started
  obtain ⟨hannounced, hwrites⟩ := shows_session naming db requests w
  refine ⟨hannounced, hwrites, fun c _ => MigrationCall.committed_eq_none_iff,
    (session naming requests).heard_run db w, ?_⟩
  intro handlers heard w'
  have halike : w'.Alike w := ⟨rfl, rfl⟩
  obtain ⟨hresults, hsteps, hdatabase, hcaches⟩ := (session naming requests).run_alike db halike
  exact ⟨hresults, hsteps, hdatabase, hcaches⟩

/-- The first attempt cannot write the record. The handler, which fails, is told of the second. -/
example :
    let failing : Handler (MigrationEvent → Except StoreError Unit) :=
      { name := "h", priority := 0, run := fun _ => .error (.hook "h" "down") }
    let create := TableRequest.migrate (.create "t" Records.numbersTable)
    let (results, w) := (session {} [create, create]).run (scriptedUnder {} true)
      { unrecordable with handlers := { hook := migrationHook, handlers := [failing] } }
    results.map Except.toBool = [false, true] ∧ w.heard = [("h", .created "t")] := ⟨rfl, rfl⟩

end ContentTables
