import ContentTables.Store.Records
import ContentTables.Store.Run
import ContentTables.Text.Basic

/-!
# A scripted database

It keeps the schema records and answers statements on them; the answers to all other statements are
scripted.

* `Backend` : the records, the script and the log of all statements;
* `Backend.receive` : logs a statement and makes it fail if a failure is pending for it;
* `Backend.write`, `Backend.read` : what a statement that was received does;
* `scripted` : the database that does both.
-/

namespace ContentTables

structure Backend where
  naming : TableNaming
  records : OrderedMap Row := ∅
  /-- Row sets for the statements that read something else than records. -/
  queue : List (List Row) := []
  /-- Parts of statements; the next statement that contains one fails. -/
  failures : List String := []
  /-- The number of rows that other statements report as affected. -/
  affected : Option UInt64 := none
  /-- The last id generated. -/
  lastId : UInt64 := 0
  /-- The answer to the next listing of the recorded tables. -/
  tableList : Option (List Row) := none
  log : List Statement := []

namespace Backend

/-- Logs a statement, and fails it on behalf of the first pending failure that it contains. -/
def receive (b : Backend) (s : Statement) : Option BackendFault × Backend :=
  let b := { b with log := b.log ++ [s] }
  match b.failures.find? fun part => containsText part s.sql with
  | some part =>
    (some (.database ("injected failure on " ++ part)),
      { b with failures := b.failures.erase part })
  | none => (none, b)

/-! ## Writing -/

def recordOf (text : Json) : Row := .ofList [("columns", text)]

def insertRecord (b : Backend) (table : String) (text : Json) :
    Except BackendFault Written × Backend :=
  if b.records.contains table then
    (.error (.database ("Duplicate entry '" ++ table ++ "'")), b)
  else (.ok ⟨1, 0⟩, { b with records := b.records.insert table (recordOf text) })

def updateRecord (b : Backend) (table : String) (text : Json) (key : String) :
    Except BackendFault Written × Backend :=
  if b.records.contains key then
    (.ok ⟨1, 0⟩, { b with records := (b.records.erase key).insert table (recordOf text) })
  else (.ok ⟨0, 0⟩, b)

def deleteRecord (b : Backend) (table : String) : Except BackendFault Written × Backend :=
  if b.records.contains table then
    (.ok ⟨1, 0⟩, { b with records := b.records.erase table })
  else (.ok ⟨0, 0⟩, b)

/-- A statement that writes something else than records. -/
def writeOther (b : Backend) (s : Statement) : Except BackendFault Written × Backend :=
  let affected := b.affected.getD 1
  if "INSERT".toList.isPrefixOf s.sql.toList then
    (.ok ⟨affected, b.lastId + 1⟩, { b with lastId := b.lastId + 1 })
  else (.ok ⟨affected, 0⟩, b)

def write (b : Backend) (s : Statement) : Except BackendFault Written × Backend :=
  if s.sql = (Records.insertRecord b.naming "" "").sql then
    match s.params with
    | [.str table, text] => b.insertRecord table text
    | _ => b.writeOther s
  else if s.sql = (Records.updateRecord b.naming "" "" "").sql then
    match s.params with
    | [.str table, text, .str key] => b.updateRecord table text key
    | _ => b.writeOther s
  else if s.sql = (Records.deleteRecord b.naming "").sql then
    match s.params with
    | [.str table] => b.deleteRecord table
    | _ => b.writeOther s
  else b.writeOther s

/-! ## Reading -/

def recordRows (b : Backend) : List Json → List Row
  | .str table :: _ => (b.records.get? table).toList
  | _ => []

/-- The names of the recorded tables, in order. -/
def tableNames (b : Backend) : List String := sortedTexts b.records.names

def tableRows (b : Backend) : List Row × Backend :=
  match b.tableList with
  | some rows => (rows, { b with tableList := none })
  | none => (b.tableNames.map fun table => .ofList [("table", .str table)], b)

def readOther (b : Backend) : List Row × Backend :=
  match b.queue with
  | rows :: queue => (rows, { b with queue })
  | [] => ([], b)

def read (b : Backend) (s : Statement) : List Row × Backend :=
  if s.sql = "SELECT 1" then ([], b)
  else if s.sql = (Records.selectSchema b.naming "").sql then (b.recordRows s.params, b)
  else if s.sql = (Records.selectTables b.naming).sql then b.tableRows
  else b.readOther

/-! ## Both together -/

def execute (b : Backend) (s : Statement) : Except BackendFault Written × Backend :=
  match b.receive s with
  | (some fault, b) => (.error fault, b)
  | (none, b) => b.write s

def fetch (b : Backend) (s : Statement) : Except BackendFault (List Row) × Backend :=
  match b.receive s with
  | (some fault, b) => (.error fault, b)
  | (none, b) =>
    let (rows, b) := b.read s
    (.ok rows, b)

end Backend

/-- The scripted database. -/
def scripted : Database Backend := ⟨Backend.execute, Backend.fetch⟩

end ContentTables
