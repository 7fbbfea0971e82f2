import ContentTables.Json.Sorted
import ContentTables.Text.Basic

/-!
# Cache keys

* `keyOfText?` : the key of a plain name, without the blanks around it;
* `keyOfJson?` : the key of a value, its text with the fields of every object sorted by name. Null
  has no key.
-/

namespace ContentTables

def keyOfText? (s : String) : Option String :=
  if isBlankText s then none else some (trimBlank s)

/-- The compact text of a value with all fields sorted. -/
def keyText (v : Json) : String := v.sortedFields.text

def keyOfJson? (v : Json) : Option String :=
  if v.isNull then none else some (keyText v)

end ContentTables
