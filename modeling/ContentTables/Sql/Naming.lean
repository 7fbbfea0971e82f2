import ContentTables.Sql.Quoted

/-!
# Names of tables

* `TableNaming` : what stands before every table name in the database, and the options under which
  tables are created;
* `TableNaming.physical`, `TableNaming.quoted` : a table's name in the database, bare and quoted;
* `TableNaming.metadataTable` : the table that holds the schema records.
-/

namespace ContentTables

structure TableNaming where
  tablePrefix : String := ""
  charset : String := "utf8mb4"
  engine : String := "InnoDB"
deriving DecidableEq, Inhabited

namespace TableNaming

def physical (naming : TableNaming) (table : String) : String := naming.tablePrefix ++ table

def quoted (naming : TableNaming) (table : String) : String := quoteIdent (naming.physical table)

def metadataTable (naming : TableNaming) : String := naming.quoted "table_structure"

/-- What follows the columns when a table is created. -/
def tableOptions (naming : TableNaming) : String :=
  "ENGINE=" ++ naming.engine ++ " DEFAULT CHARSET=" ++ naming.charset

end TableNaming

end ContentTables
