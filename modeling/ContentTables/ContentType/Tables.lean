import ContentTables.ContentType.Descriptor

/-!
# Tables of a content type

* `contentTable` : a generated key, the fields of the type, and the columns that its flags ask for.
  Caller's fields keep their place; a flag's column replaces a field of its name;
* `metaTable`, `commentsTable` : the tables beside it.
-/

namespace ContentTables

def defaultFields : TypeKind → TableSchema
  | .content => .ofList [
      ("title", { Column.string 200 with required := true }),
      ("status", { Column.choice ["public", "private", "pending", "draft"] "draft" with
        required := true }),
      ("summary", .string 255),
      ("description", .string 1000),
      ("author", { Column.int 20 with index := true }),
      ("slug", { Column.string 200 with required := true, index := true }),
      ("thumb", .int 20)]
  | .group => .ofList [
      ("name", { Column.string 200 with required := true, index := true }),
      ("description", .string 255),
      ("slug", { Column.string 200 with required := true, index := true }),
      ("thumb", .int 20)]

/-- The key of a content table. -/
def contentKey : Column :=
  { Column.bigint with length := some 20, autoIncrement := true, primary := true, index := true }

/-- Adds a column only where there is none of its name. -/
def withDefaultColumn (schema : TableSchema) (name : String) (c : Column) : TableSchema :=
  if schema.contains name then schema else schema.insert name c

def withStamps (kind : TypeKind) (schema : TableSchema) : TableSchema :=
  match kind with
  | .content =>
    withDefaultColumn (withDefaultColumn schema "created" .currentTimestamp) "updated"
      .currentTimestamp
  | .group => schema

def withParent (hierarchical : Bool) (schema : TableSchema) : TableSchema :=
  if hierarchical then schema.insert "parent" (.int 20) else schema

def withComments (comments : Bool) (schema : TableSchema) : TableSchema :=
  if comments then schema.insert "comments" (.choice ["open", "close", "disabled"] "open")
  else schema

def contentTable (d : TypeDescriptor) : TableSchema :=
  let fields := d.fields.getD (defaultFields d.kind)
  let base := (OrderedMap.ofList [("ID", contentKey)]).insertAll fields.entries
  withComments d.comments (withParent d.hierarchical (withStamps d.kind base))

def metaTable : TableSchema := .ofList [
  ("name", { Column.string 160 with required := true, index := true }),
  ("value", .object),
  ("contentId", { Column.bigint with required := true, index := true })]

def commentsTable : TableSchema := .ofList [
  ("ID", { Column.bigint with
    required := true, primary := true, autoIncrement := true, index := true }),
  ("parent", { Column.bigint with default := some (.ofUInt64 0) }),
  ("contentId", { Column.bigint with required := true, index := true }),
  ("comment", { Column.string 1000 with required := true }),
  ("status", .choice ["public", "private", "pending", "spam"] "pending"),
  ("authorId", .bigint),
  ("author", .string 255),
  ("authorEmail", .string 160),
  ("authorUrl", .string 160),
  ("date", .currentTimestamp)]

end ContentTables
