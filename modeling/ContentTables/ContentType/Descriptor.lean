import ContentTables.Schema.Table

/-!
# Content types

* `TypeKind`, `TypeDescriptor` : a content type as far as its tables are concerned;
* `TypeDescriptor.json`, `TypeDescriptor.read?` : its written form and its reader;
* `TableRole` : the tables that a content type has; each is named after the slug and the role.
-/

namespace ContentTables

inductive TypeKind where
  | content
  | group
deriving DecidableEq, Inhabited

namespace TypeKind

def name : TypeKind → String
  | .content => "content"
  | .group => "group"

def ofName? (s : String) : Option TypeKind :=
  if s = "content" then some .content else if s = "group" then some .group else none

theorem ofName?_name (k : TypeKind) : ofName? k.name = some k := by cases k <;> decide

end TypeKind

structure TypeDescriptor where
  slug : String
  kind : TypeKind := .content
  hierarchical : Bool := false
  comments : Bool := false
  /-- Fields in place of those that the kind brings. -/
  fields : Option TableSchema := none
deriving Inhabited

namespace TypeDescriptor

def json (d : TypeDescriptor) : Json :=
  .obj ([("slug", .str d.slug), ("type", .str d.kind.name),
    ("hierarchical", .bool d.hierarchical), ("comments", .bool d.comments)] ++
    (d.fields.map fun s => ("fields", s.json)).toList)

def fieldNames : List String := ["slug", "type", "hierarchical", "comments", "fields"]

def read? (d : Document) : Option TypeDescriptor :=
  match d.record? fieldNames with
  | some [slug, kind, hierarchical, comments, fields] => do
    some {
      slug := ← Document.required Document.text? slug
      kind := ← Document.orElse .content (fun d => d.tag?.bind TypeKind.ofName?) kind
      hierarchical := ← Document.orElse false Document.bool? hierarchical
      comments := ← Document.orElse false Document.bool? comments
      fields := ← Document.optional TableSchema.read? fields }
  | _ => none

end TypeDescriptor

inductive TableRole where
  | content
  | metadata
  | comments
deriving DecidableEq, Inhabited

namespace TableRole

def name : TableRole → String
  | .content => "content"
  | .metadata => "meta"
  | .comments => "comments"

def tableName (role : TableRole) (slug : String) : String := slug ++ "_" ++ role.name

end TableRole

end ContentTables
