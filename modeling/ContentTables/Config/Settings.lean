import ContentTables.Json.Printer
import ContentTables.Json.Record
import ContentTables.Sql.Naming

/-!
# Settings

* `BasicSettings`, `DatabaseSettings`, `Settings` : what a deployment sets;
* `Settings.json`, `Settings.read?` : the written form and its reader. A part that is absent as a
  whole takes all its defaults; in a basic part that is there, an absent field is empty;
* `DatabaseSettings.naming` : the names of tables under these settings.
-/

namespace ContentTables

structure BasicSettings where
  databaseUrl : String := "mysql://root@localhost:3306/simplified"
  logLevel : String := "info"
deriving DecidableEq, Inhabited

namespace BasicSettings

def json (s : BasicSettings) : Json :=
  .obj [("database_url", .str s.databaseUrl), ("loglevel", .str s.logLevel)]

def fieldNames : List String := ["database_url", "loglevel"]

def read? (d : Document) : Option BasicSettings :=
  match d.record? fieldNames with
  | some [url, level] => do
    some {
      databaseUrl := ← Document.orElse "" Document.text? url
      logLevel := ← Document.orElse "" Document.text? level }
  | _ => none

end BasicSettings

structure DatabaseSettings where
  tablePrefix : String := ""
  charset : String := "utf8mb4"
  engine : String := "InnoDB"
  maxConnections : UInt32 := 10
  acquireTimeoutSecs : UInt64 := 5
deriving DecidableEq, Inhabited

namespace DatabaseSettings

def json (s : DatabaseSettings) : Json :=
  .obj [("prefix", .str s.tablePrefix), ("charset", .str s.charset), ("engine", .str s.engine),
    ("max_connections", .ofUInt64 s.maxConnections.toUInt64),
    ("acquire_timeout_secs", .ofUInt64 s.acquireTimeoutSecs)]

def fieldNames : List String :=
  ["prefix", "charset", "engine", "max_connections", "acquire_timeout_secs"]

def read? (d : Document) : Option DatabaseSettings :=
  match d.record? fieldNames with
  | some [tablePrefix, charset, engine, connections, timeout] => do
    some {
      tablePrefix := ← Document.orElse "" Document.text? tablePrefix
      charset := ← Document.orElse "utf8mb4" Document.text? charset
      engine := ← Document.orElse "InnoDB" Document.text? engine
      maxConnections := ← Document.orElse 10 Document.word32? connections
      acquireTimeoutSecs := ← Document.orElse 5 Document.word64? timeout }
  | _ => none

def naming (s : DatabaseSettings) : TableNaming := ⟨s.tablePrefix, s.charset, s.engine⟩

end DatabaseSettings

structure Settings where
  basic : BasicSettings := {}
  database : DatabaseSettings := {}
deriving DecidableEq, Inhabited

namespace Settings

def json (s : Settings) : Json :=
  .obj [("basic", s.basic.json), ("database", s.database.json)]

def read? (d : Document) : Option Settings :=
  match d.record? ["basic", "database"] with
  | some [basic, database] => do
    some {
      basic := ← Document.orElse {} BasicSettings.read? basic
      database := ← Document.orElse {} DatabaseSettings.read? database }
  | _ => none

end Settings

end ContentTables
