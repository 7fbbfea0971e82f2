import ContentTables.Json.Basic

/-!
# Tables of a settings file

* `Node`, `Origin` : the tables of a file as they grow, and what brought each of them about, which
  decides whether it may be taken up again;
* `KeyPath` : keys with points between them;
* `put?` : a setting under dotted keys;
* `open?`, `extend?` : the headers of a table and of the next table in a list;
* `Node.json`, `jsonOf` : the finished value.

All of them give `none` where a file says something twice.
-/

namespace ContentTables

namespace SettingsFile

inductive Origin where
  /-- The table has a header or is the file itself, or it is written out as a value. -/
  | stated
  /-- The table lies on the way that a header takes to another table. -/
  | passed
  /-- The table lies on the way that dotted keys take to a setting. -/
  | dotted
deriving DecidableEq

inductive Node where
  /-- A finished value, to which nothing can be added. -/
  | value (v : Json)
  | table (origin : Origin) (entries : List (String × Node))
  /-- A list of tables, of which only the last can grow. -/
  | tables (earlier : List Json) (last : List (String × Node))

abbrev Entries := List (String × Node)

structure KeyPath where
  parents : List String
  key : String

namespace KeyPath

def keys (path : KeyPath) : List String := path.parents ++ [path.key]

def ofList? (keys : List String) : Option KeyPath :=
  keys.getLast?.map fun key => ⟨keys.dropLast, key⟩

end KeyPath

/-! ## Values -/

mutual

def Node.json : Node → Json
  | .value v => v
  | .table _ entries => .obj (jsonFields entries)
  | .tables earlier last => .arr (earlier ++ [.obj (jsonFields last)])

def jsonFields : List (String × Node) → List (String × Json)
  | [] => []
  | (key, node) :: rest => (key, node.json) :: jsonFields rest

end

def jsonOf (entries : Entries) : Json := .obj (jsonFields entries)

/-! ## Growing -/

/-- Changes the entries of the table that the keys lead to, where `origin` is that of the table
they start from. Tables on the way come about as `passing` says; dotted keys do not lead into a
stated table. A list of tables stands for its last one. -/
def within? (passing : Origin) (change : Origin → Entries → Option Entries) :
    List String → Origin → Entries → Option Entries
  | [], origin, entries => change origin entries
  | key :: keys, _, entries => do
    let node ←
      match entries.lookup key with
      | none => (within? passing change keys passing []).map (Node.table passing)
      | some (.table origin inner) =>
        if passing = .dotted ∧ origin = .stated then none
        else (within? passing change keys origin inner).map (Node.table origin)
      | some (.tables earlier last) =>
        (within? passing change keys .stated last).map (Node.tables earlier)
      | some (.value _) => none
    some (putEntry key node entries)

/-- Puts a value under dotted keys into a stated table. Where there are several keys, they must end
in a table that only dotted keys have made. -/
def put? (path : KeyPath) (v : Json) : Entries → Option Entries :=
  within? .dotted (fun origin entries =>
    if path.parents.isEmpty = decide (origin = .dotted) then none
    else
      match entries.lookup path.key with
      | none => some (putEntry path.key (.value v) entries)
      | some _ => none) path.parents .stated

/-- Starts a table under its header, unless there is more of it than tables inside. -/
def open? (path : KeyPath) : Entries → Option Entries :=
  within? .passed (fun _ entries =>
    match entries.lookup path.key with
    | none => some (putEntry path.key (.table .stated []) entries)
    | some (.table .passed inner) => some (putEntry path.key (.table .stated inner) entries)
    | some _ => none) path.parents .stated

/-- Starts the next table of a list. -/
def extend? (path : KeyPath) : Entries → Option Entries :=
  within? .passed (fun _ entries =>
    match entries.lookup path.key with
    | none => some (putEntry path.key (.tables [] []) entries)
    | some (.tables earlier last) =>
      some (putEntry path.key (.tables (earlier ++ [jsonOf last]) []) entries)
    | some _ => none) path.parents .stated

end SettingsFile

end ContentTables
