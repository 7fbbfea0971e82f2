import ContentTables.Script.Hold

/-!
# Scripted sessions

A session runs steps one after the other in one world, and reports for each what came of it, the
statements sent and the handlers told since the last report.

* `Step` : an operation of the store, a change of the script, or two of them overlapping: one is
  held at a statement while others run;
* `Report`, `Step.run`, `Step.runAll` : what the steps report.
-/

namespace ContentTables

/-- A change of the script. -/
inductive Control where
  | queueRows (rows : List Row)
  | failOn (part : String)
  | setAffected (n : Option UInt64)
  | setLastId (n : UInt64)
  | setRecord (table : String) (record : Option Row)
  | setTableList (rows : List Row)

def Control.apply (b : Backend) : Control → Backend
  | .queueRows rows => { b with queue := b.queue ++ [rows] }
  | .failOn part => { b with failures := b.failures ++ [part] }
  | .setAffected n => { b with affected := n }
  | .setLastId n => { b with lastId := n }
  | .setRecord table (some record) => { b with records := b.records.insert table record }
  | .setRecord table none => { b with records := b.records.erase table }
  | .setTableList rows => { b with tableList := some rows }

inductive Step where
  | control (change : Control)
  /-- Reports all records, sorted by table. -/
  | showRecords
  /-- An operation, with its result as a value. -/
  | call (operation : Operation Json)
  /-- A step whose arguments were refused. -/
  | refused (reason : StoreError)
  | overlap (part : String) (step : Step) (during : List Step)

instance : Inhabited Step := ⟨.showRecords⟩

structure Item where
  result : Except StoreError Json
  log : List Statement
  heard : List (String × MigrationEvent)

inductive Report where
  | item (item : Item)
  /-- The step ran to its end without being held, and the others did not run. -/
  | passed (after : Report)
  | held (before : List Statement) (during : List Report) (after : Item)

/-- What was logged and heard since the last report, with a result. -/
def reportOf (result : Except StoreError Json) (w : ScriptedWorld) : Item × ScriptedWorld :=
  (⟨result, w.database.log, w.heard⟩,
    { w with database := { w.database with log := [] }, heard := [] })

/-- Every record with its table, as a value. -/
def Backend.recordsJson (b : Backend) : Json :=
  .arr (b.tableNames.filterMap fun table =>
    (b.records.get? table).map fun record =>
      .arr [.str table, .str (Json.ofRow record).text])

namespace Step

mutual

def run : Step → ScriptedWorld → Report × ScriptedWorld
  | .control change, w =>
    let (item, w) := reportOf (.ok .null) { w with database := change.apply w.database }
    (.item item, w)
  | .showRecords, w =>
    let (item, w) := reportOf (.ok w.database.recordsJson) w
    (.item item, w)
  | .call operation, w =>
    let (result, w) := Program.run scripted operation w
    let (item, w) := reportOf result w
    (.item item, w)
  | .refused reason, w =>
    let (item, w) := reportOf (.error reason) w
    (.item item, w)
  | .overlap part (.call operation) during, w =>
    match Program.runUntil (fun s => containsText part s.sql) operation w with
    | .finished result w =>
      let (item, w) := reportOf result w
      (.passed (.item item), w)
    | .held w resume =>
      let (before, w) := reportOf (.ok .null) w
      let (reports, w) := runAll during w
      let (result, w) := resume w
      let (item, w) := reportOf result w
      (.held before.log reports item, w)
  | .overlap _ step _, w =>
    let (report, w) := run step w
    (.passed report, w)

def runAll : List Step → ScriptedWorld → List Report × ScriptedWorld
  | [], w => ([], w)
  | step :: steps, w =>
    let (report, w) := run step w
    let (reports, w) := runAll steps w
    (report :: reports, w)

end

end Step

end ContentTables
