import ContentTables.Json.Basic

/-!
# Documents

A document is what a text says before anyone decides what to make of it. It keeps repeated fields,
and it marks the parts that are well formed but denote nothing: a number too large for a double, an
escape that is half of a surrogate pair, a value nested too deep. A reader that skips a part does
not mind such a mark in it.

* `Document` : the tree of a text;
* `Document.limitDepth` : marks what nests deeper than a limit;
* `Document.value?` : the value, if every part denotes one; a repeated field keeps its first place
  and takes its last value;
* `Json.document` : the document that says just this value.
-/

namespace ContentTables

inductive Document where
  | null
  | bool (b : Bool)
  | num (n : Number)
  | str (s : String)
  | arr (items : List Document)
  /-- A name is `none` when it denotes no text. -/
  | obj (fields : List (Option String × Document))
  | unreadable
deriving Inhabited

namespace Document

mutual

def limitDepth : Nat → Document → Document
  | 0, .arr _ => .unreadable
  | 0, .obj _ => .unreadable
  | n + 1, .arr items => .arr (limitDepthItems n items)
  | n + 1, .obj fields => .obj (limitDepthFields n fields)
  | _, d => d

def limitDepthItems (n : Nat) : List Document → List Document
  | [] => []
  | d :: ds => limitDepth n d :: limitDepthItems n ds

def limitDepthFields (n : Nat) :
    List (Option String × Document) → List (Option String × Document)
  | [] => []
  | (name, d) :: fs => (name, limitDepth n d) :: limitDepthFields n fs

end

mutual

def value? : Document → Option Json
  | .null => some .null
  | .bool b => some (.bool b)
  | .num n => some (.num n)
  | .str s => some (.str s)
  | .arr items => (values? items).map .arr
  | .obj fields => (fieldValues? fields).map fun fs => .obj (ofPairs fs)
  | .unreadable => none

def values? : List Document → Option (List Json)
  | [] => some []
  | d :: ds => do
    let v ← d.value?
    let vs ← values? ds
    some (v :: vs)

def fieldValues? : List (Option String × Document) → Option (List (String × Json))
  | [] => some []
  | (none, _) :: _ => none
  | (some name, d) :: fs => do
    let v ← d.value?
    let vs ← fieldValues? fs
    some ((name, v) :: vs)

end

end Document

namespace Json

mutual

def document : Json → Document
  | .null => .null
  | .bool b => .bool b
  | .num n => .num n
  | .str s => .str s
  | .arr items => .arr (documents items)
  | .obj fields => .obj (fieldDocuments fields)

def documents : List Json → List Document
  | [] => []
  | v :: vs => v.document :: documents vs

def fieldDocuments : List (String × Json) → List (Option String × Document)
  | [] => []
  | (name, v) :: fs => (some name, v.document) :: fieldDocuments fs

end

end Json

end ContentTables
