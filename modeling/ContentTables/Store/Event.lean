import ContentTables.Schema.Diff

/-!
# Migration events

* `MigrationEvent` : what happened to a table, told once the database and the record agree on it.
-/

namespace ContentTables

inductive MigrationEvent where
  | created (table : String)
  | altered (table : String) (diff : SchemaDiff)
  | renamed (source target : String)
  | dropped (table : String)

def migrationHook : String := "migration"

namespace MigrationEvent

def json : MigrationEvent → Json
  | .created table => .obj [("event", .str "created"), ("table", .str table)]
  | .altered table diff =>
    .obj [("event", .str "altered"), ("table", .str table), ("diff", diff.json)]
  | .renamed source target =>
    .obj [("event", .str "renamed"), ("from", .str source), ("to", .str target)]
  | .dropped table => .obj [("event", .str "dropped"), ("table", .str table)]

/-- The tables whose rows the event concerns. -/
def tables : MigrationEvent → List String
  | .created table | .altered table _ | .dropped table => [table]
  | .renamed source target => [source, target]

end MigrationEvent

end ContentTables
