import ContentTables.Number.Basic
import ContentTables.OrderedMap

/-!
# Json values

* `Json` : values whose objects keep the order of their fields;
* `Json.sameValue` : equality of values, in which the order of object fields does not count;
* `Json.depth` : how deep arrays and objects nest;
* `Json.Kind` : the six kinds, with the words that messages use for them;
* `Row` : a row of a table, a column name before each value.
-/

namespace ContentTables

inductive Json where
  | null
  | bool (b : Bool)
  | num (n : Number)
  | str (s : String)
  | arr (items : List Json)
  | obj (fields : List (String × Json))
deriving Inhabited

abbrev Row := OrderedMap Json

namespace Json

def ofUInt64 (n : UInt64) : Json := .num (.ofUInt64 n)

/-- A text, or null where there is none. -/
def ofString? : Option String → Json
  | some s => .str s
  | none => .null

def ofRow (row : Row) : Json := .obj row.entries

def strings (texts : List String) : Json := .arr (texts.map .str)

def isNull : Json → Bool
  | .null => true
  | _ => false

/-- Neither an array nor an object. -/
def isScalar : Json → Bool
  | .arr _ | .obj _ => false
  | _ => true

def isArray : Json → Bool
  | .arr _ => true
  | _ => false

def str? : Json → Option String
  | .str s => some s
  | _ => none

def row? : Json → Option Row
  | .obj fields => some (.ofList fields)
  | _ => none

/-- The field of an object with that name. -/
def field? (name : String) : Json → Option Json
  | .obj fields => fields.lookup name
  | _ => none

/-! ## Kinds -/

inductive Kind where
  | null | boolean | number | string | array | object
deriving DecidableEq

def kind : Json → Kind
  | .null => .null
  | .bool _ => .boolean
  | .num _ => .number
  | .str _ => .string
  | .arr _ => .array
  | .obj _ => .object

/-- The kind as messages call it. -/
def Kind.phrase : Kind → String
  | .null => "null"
  | .boolean => "a boolean"
  | .number => "a number"
  | .string => "a string"
  | .array => "an array"
  | .object => "an object"

/-! ## Equality and depth -/

mutual

def sameValue : Json → Json → Bool
  | .null, .null => true
  | .bool a, .bool b => a == b
  | .num m, .num n => m.sameValue n
  | .str s, .str t => s == t
  | .arr vs, .arr ws => sameItems vs ws
  | .obj fs, .obj gs => fs.length == gs.length && sameFields fs gs
  | _, _ => false

def sameItems : List Json → List Json → Bool
  | [], [] => true
  | v :: vs, w :: ws => v.sameValue w && sameItems vs ws
  | _, _ => false

/-- Every field on the left has an equal one of its name on the right. -/
def sameFields : List (String × Json) → List (String × Json) → Bool
  | [], _ => true
  | (name, v) :: fs, gs => (gs.lookup name).any v.sameValue && sameFields fs gs

end

mutual

def depth : Json → Nat
  | .arr items => depthItems items + 1
  | .obj fields => depthFields fields + 1
  | _ => 0

def depthItems : List Json → Nat
  | [] => 0
  | v :: vs => max v.depth (depthItems vs)

def depthFields : List (String × Json) → Nat
  | [] => 0
  | (_, v) :: fs => max v.depth (depthFields fs)

end

end Json

end ContentTables
