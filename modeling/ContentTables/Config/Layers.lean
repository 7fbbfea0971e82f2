import ContentTables.Config.File
import ContentTables.Config.Settings
import ContentTables.Config.Variable

/-!
# Where settings come from

Settings are the defaults, changed by a file, changed by variables of the environment. A later
layer replaces an earlier one key by key, tables being merged.

* `Json.overlaid` : one layer over another;
* `Variable.layer` : the layer of the variables, in which a later one lies over an earlier one;
* `Settings.ofLayer?` : the settings of a layer;
* `Settings.load` : the settings, or why there are none.
-/

namespace ContentTables

mutual

/-- The second value over the first: objects are merged, all else is replaced. -/
def Json.overlaid (base : Json) : Json → Json
  | .obj fields =>
    match base with
    | .obj old => .obj (Json.overlaidFields old fields)
    | _ => .obj fields
  | v => v

def Json.overlaidFields (old : List (String × Json)) :
    List (String × Json) → List (String × Json)
  | [] => old
  | (name, v) :: rest =>
    Json.overlaidFields (putEntry name (((old.lookup name).getD .null).overlaid v) old) rest

end

def Variable.layer (environment : List (String × String)) : Json :=
  environment.foldl (fun layer (name, text) =>
    match Variable.path? name with
    | some path => layer.overlaid (Variable.nested path (Variable.value text))
    | none => layer) (.obj [])

/-! ## Loading -/

inductive LoadFault where
  /-- A layer is malformed, or a setting has a value of the wrong type. -/
  | unreadable
  | noDatabaseUrl
deriving DecidableEq

def LoadFault.message? : LoadFault → Option String
  | .unreadable => none
  | .noDatabaseUrl => some "basic.database_url must be set and non-empty"

namespace Settings

/-- A list may give the settings of a part in their order; items beyond the last are left out. -/
def partOf? (layer : Json) (name : String) (size : Nat) : Option Document :=
  (layer.field? name).map fun
    | .arr items => Json.document (.arr (items.take size))
    | v => v.document

def ofLayer? (layer : Json) : Option Settings := do
  some {
    basic := ← Document.orElse {} BasicSettings.read?
      (partOf? layer "basic" BasicSettings.fieldNames.length)
    database := ← Document.orElse {} DatabaseSettings.read?
      (partOf? layer "database" DatabaseSettings.fieldNames.length) }

/-- The settings under the text of a file, if there is one, and the variables of the environment. -/
def load (file : Option String) (environment : List (String × String)) :
    Except LoadFault Settings := do
  let fileLayer ←
    match file with
    | none => .ok (Json.obj [])
    | some text => (parseSettings? text).elim (.error .unreadable) .ok
  let merged := (({} : Settings).json.overlaid fileLayer).overlaid (Variable.layer environment)
  let settings ← (ofLayer? merged).elim (.error .unreadable) .ok
  if isBlankText settings.basic.databaseUrl then .error .noDatabaseUrl else .ok settings

end Settings

end ContentTables
