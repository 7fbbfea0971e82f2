import ContentTables.Json.Printer

/-!
# Order

Texts are ordered by the code points of their characters.

* `Json.sortedByText` : values in the order of their compact texts;
* `Json.sortedFields` : a value whose objects, at every level, list their fields by name.
-/

namespace ContentTables

/-- Code point order of texts. -/
def textLe (s t : String) : Bool := decide (s ≤ t)

/-- The texts in code point order. -/
def sortedTexts (texts : List String) : List String := texts.mergeSort textLe

/-- Entries in the order of their names. -/
def sortedByName {α : Type} (entries : List (String × α)) : List (String × α) :=
  entries.mergeSort fun (m, _) (n, _) => textLe m n

namespace Json

def sortedByText (values : List Json) : List Json :=
  values.mergeSort fun v w => textLe v.text w.text

mutual

def sortedFields : Json → Json
  | .arr items => .arr (sortedFieldsItems items)
  | .obj fields => .obj (sortedByName (sortedFieldsEntries fields))
  | v => v

def sortedFieldsItems : List Json → List Json
  | [] => []
  | v :: vs => v.sortedFields :: sortedFieldsItems vs

def sortedFieldsEntries : List (String × Json) → List (String × Json)
  | [] => []
  | (name, v) :: fs => (name, v.sortedFields) :: sortedFieldsEntries fs

end

end Json

end ContentTables
