import ContentTables.Json.Document

/-!
# Records

A record is a fixed list of named fields. In a document it is an object, or an array of the fields
in their declared order.

* `Document.record?` : the fields by position. Names that the record does not declare are skipped
  whatever they hold, a declared name may not be repeated, and an array may stop early but not run
  over;
* `Document.required`, `orElse`, `optional` : what a field is when it is absent;
* `bool?`, `text?`, `word32?`, `word64?`, `texts?`, `tag?` : what a field may hold. Nothing is
  converted.
-/

namespace ContentTables

namespace Document

/-- The only field of that name, `some none` if there is none, `none` if there are several. -/
def single? (name : String) (fields : List (Option String × Document)) :
    Option (Option Document) :=
  match fields.filter fun (n, _) => n == some name with
  | [] => some none
  | [(_, d)] => some (some d)
  | _ => none

def record? (names : List String) : Document → Option (List (Option Document))
  | .obj fields =>
    if fields.any fun (n, _) => n.isNone then none else names.mapM (single? · fields)
  | .arr items =>
    if items.length ≤ names.length then
      some (items.map some ++ List.replicate (names.length - items.length) none)
    else none
  | _ => none

/-! ## Absent fields -/

variable {α : Type}

def required (read : Document → Option α) (field : Option Document) : Option α :=
  field.bind read

def orElse (absent : α) (read : Document → Option α) : Option Document → Option α
  | none => some absent
  | some d => read d

/-- An absent field and a null are both `none`. -/
def optional (read : Document → Option α) : Option Document → Option (Option α)
  | none => some none
  | some .null => some none
  | some d => (read d).map some

/-! ## Contents -/

def bool? : Document → Option Bool
  | .bool b => some b
  | _ => none

def text? : Document → Option String
  | .str s => some s
  | _ => none

/-- An integer from zero up to a bound, the bound excluded. -/
def nat? (bound : Nat) : Document → Option Nat
  | .num (.int n) => if 0 ≤ n.val ∧ n.val < bound then some n.val.toNat else none
  | _ => none

def word32? (d : Document) : Option UInt32 := (d.nat? UInt32.size).map UInt32.ofNat

def word64? (d : Document) : Option UInt64 := (d.nat? UInt64.size).map UInt64.ofNat

def texts? : Document → Option (List String)
  | .arr items => items.mapM text?
  | _ => none

/-- A bare word, written as a string or as the only field of an object that holds a null. -/
def tag? : Document → Option String
  | .str s => some s
  | .obj [(some s, .null)] => some s
  | _ => none

end Document

end ContentTables
