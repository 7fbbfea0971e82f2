import ContentTables.Json.Basic

/-!
# Row conditions

* `Operator`, `Operand` : how a column is compared, and with what;
* `Predicate` : a comparison, or parts of which all or any must hold;
* `Condition` : predicates that must all hold; none at all accepts every row;
* `Operator.token?`, `Operator.ofToken?` : the operators by the words of the condition language.
  Equality has no word, it is written as a bare value.
-/

namespace ContentTables

inductive Operator where
  | equal | greater | greaterEqual | less | lessEqual | notEqual
  | isIn | notIn | like | notLike | between
deriving DecidableEq

namespace Operator

def all : List Operator :=
  [.equal, .greater, .greaterEqual, .less, .lessEqual, .notEqual, .isIn, .notIn, .like, .notLike,
    .between]

def token? : Operator → Option String
  | .equal => none
  | .greater => some "$gt"
  | .greaterEqual => some "$gte"
  | .less => some "$lt"
  | .lessEqual => some "$lte"
  | .notEqual => some "$not"
  | .isIn => some "$in"
  | .notIn => some "$notin"
  | .like => some "$like"
  | .notLike => some "$notlike"
  | .between => some "$between"

def ofToken? (s : String) : Option Operator := all.find? (·.token? = some s)

theorem ofToken?_of_token? {op : Operator} {s : String} (h : op.token? = some s) :
    ofToken? s = some op := by
  cases op <;> cases h <;> decide

/-- What follows the column in a statement. -/
def placeholder : Operator → String
  | .equal => "= ?"
  | .greater => "> ?"
  | .greaterEqual => ">= ?"
  | .less => "< ?"
  | .lessEqual => "<= ?"
  | .notEqual => "!= ?"
  | .isIn => "IN (?)"
  | .notIn => "NOT IN (?)"
  | .like => "LIKE ?"
  | .notLike => "NOT LIKE ?"
  | .between => "BETWEEN ? AND ?"

def takesList : Operator → Bool
  | .isIn | .notIn => true
  | _ => false

end Operator

inductive Operand where
  | scalar (value : Json)
  | list (values : List Json)
  | range (low high : Json)
deriving Inhabited

/-- The parameters that the operand binds; a list is one parameter until it is expanded. -/
def Operand.params : Operand → List Json
  | .scalar v => [v]
  | .list vs => [.arr vs]
  | .range low high => [low, high]

inductive Predicate where
  | field (column : String) (operator : Operator) (operand : Operand)
  /-- The fields of one object, all of which must hold. -/
  | group (parts : List Predicate)
  | all (parts : List Predicate)
  | any (parts : List Predicate)
deriving Inhabited

structure Condition where
  predicates : List Predicate
deriving Inhabited

namespace Condition

def empty : Condition := ⟨[]⟩

def isEmpty (c : Condition) : Bool := c.predicates.isEmpty

end Condition

end ContentTables
