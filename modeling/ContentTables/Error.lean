/-!
# Errors

* `StoreError` : why an operation failed;
* `StoreError.message` : the wording of each;
* `StoreError.isValidation` : the failure was found before any statement that writes was sent;
* `StoreError.isNotFound` : a table or a row is missing.
-/

namespace ContentTables

inductive StoreError where
  /-- The caller's input is refused; the message says all. -/
  | validation (message : String)
  | invalidSchema (reason : String)
  | malformedCondition (reason : String)
  | tableNotFound (table : String)
  | rowNotFound (table : String)
  /-- The database refused a statement. -/
  | database (reason : String)
  /-- A text or a value does not have the form of what was to be read from it. -/
  | unreadable (reason : String)
  /-- The connection's worker did not answer. -/
  | worker (reason : String)
  /-- A handler of the hook failed. -/
  | hook (name reason : String)
deriving DecidableEq

namespace StoreError

def message : StoreError → String
  | .validation message => message
  | .invalidSchema reason => "Invalid schema: " ++ reason
  | .malformedCondition reason => "Malformed condition: " ++ reason
  | .tableNotFound table => "Table does not exist: " ++ table
  | .rowNotFound table => "No row found in " ++ table
  | .database reason => "Database error: encountered unexpected or invalid data: " ++ reason
  | .unreadable reason => "JSON error: " ++ reason
  | .worker reason => "Ractor error: " ++ reason
  | .hook name reason => "Hook " ++ name ++ " failed: " ++ reason

def isValidation : StoreError → Bool
  | .validation _ | .invalidSchema _ | .malformedCondition _ => true
  | _ => false

def isNotFound : StoreError → Bool
  | .tableNotFound _ | .rowNotFound _ => true
  | _ => false

/-! ## Refusals -/

def columnRequired (column : String) : StoreError := .validation (column ++ " is required")

def slugRequired : StoreError := .validation "slug is required"

def noKnownColumns : StoreError := .validation "no known columns to update"

def updateNeedsCondition : StoreError := .validation "update requires a condition"

def joinNeedsTable : StoreError := .validation "join requires at least one table"

/-- A schema, a descriptor or a setting that does not have its form. -/
def badForm : StoreError := .unreadable "unexpected form"

end StoreError

end ContentTables
