import ContentTables.Condition.Basic
import ContentTables.Error

/-!
# The condition language

A condition is written as a value:

* `{"age": 18}` compares a column with a scalar;
* `{"age": {"$gt": 18}}` names the operators, each with its operand;
* `{"$and": [..]}` and `{"$or": [..]}` join the conditions of an array, or the fields of an object
  taken one by one.

Main definitions:

* `ConditionFault` : what makes a value no condition; the first fault in reading order counts;
* `Condition.parse` : the condition that a value denotes. A sub-condition of one predicate is that
  predicate, any other is a group.
-/

namespace ContentTables

inductive ConditionFault where
  | notAnObject (kind : Json.Kind)
  | itemNotAnObject (key : String) (kind : Json.Kind)
  | partsNotAContainer (key : String) (kind : Json.Kind)
  | unknownCombinator (key : String)
  | noOperators (column : String)
  | unknownOperator (column token : String)
  | bareArray (column : String)
  | emptyList (column : String)
  | notAList (column : String)
  | notARange (column : String)
  | notAScalar (column : String) (kind : Json.Kind)
deriving DecidableEq

def ConditionFault.message : ConditionFault → String
  | .notAnObject kind => "expected an object at the top level, got " ++ kind.phrase
  | .itemNotAnObject key kind => key ++ " items must be objects, got " ++ kind.phrase
  | .partsNotAContainer key kind => key ++ " expects an array or an object, got " ++ kind.phrase
  | .unknownCombinator key => "unknown combinator " ++ key
  | .noOperators column => column ++ ": empty operator object"
  | .unknownOperator column token => column ++ ": unknown operator " ++ token
  | .bareArray column => column ++ ": bare arrays are not allowed, use $in"
  | .emptyList column => column ++ ": empty list for IN"
  | .notAList column => column ++ ": IN expects an array of scalars"
  | .notARange column => column ++ ": BETWEEN expects exactly two values"
  | .notAScalar column kind => column ++ ": operator expects a scalar, got " ++ kind.phrase

/-- A malformed condition as the store reports it. -/
def ConditionFault.error (fault : ConditionFault) : StoreError :=
  .malformedCondition fault.message

namespace Condition

/-! ## Comparisons -/

def parseList (column : String) : Json → Except ConditionFault Operand
  | .arr [] => .error (.emptyList column)
  | .arr items => if items.all Json.isScalar then .ok (.list items) else .error (.notAList column)
  | _ => .error (.notAList column)

def parseRange (column : String) : Json → Except ConditionFault Operand
  | .arr [low, high] =>
    if low.isScalar && high.isScalar then .ok (.range low high) else .error (.notARange column)
  | _ => .error (.notARange column)

def parseScalar (column : String) (v : Json) : Except ConditionFault Operand :=
  if v.isScalar then .ok (.scalar v) else .error (.notAScalar column v.kind)

def parseOperand (column : String) (operator : Operator) (v : Json) :
    Except ConditionFault Operand :=
  match operator with
  | .isIn | .notIn => parseList column v
  | .between => parseRange column v
  | _ => parseScalar column v

def parseOperators (column : String) : List (String × Json) → Except ConditionFault (List Predicate)
  | [] => .ok []
  | (token, v) :: rest =>
    match Operator.ofToken? token with
    | none => .error (.unknownOperator column token)
    | some operator => do
      let operand ← parseOperand column operator v
      let predicates ← parseOperators column rest
      .ok (.field column operator operand :: predicates)

/-- The comparisons that the value of a column denotes. -/
def parseField (column : String) (v : Json) : Except ConditionFault (List Predicate) :=
  if column.toList.head? = some '$' then .error (.unknownCombinator column)
  else
    match v with
    | .obj [] => .error (.noOperators column)
    | .obj operators => parseOperators column operators
    | .arr _ => .error (.bareArray column)
    | scalar => .ok [.field column .equal (.scalar scalar)]

/-! ## Combinations -/

/-- The two keys that combine parts. -/
def combinator? (key : String) : Option (List Predicate → Predicate) :=
  if key = "$and" then some .all else if key = "$or" then some .any else none

/-- The predicate of a sub-condition. -/
def grouped : List Predicate → Predicate
  | [p] => p
  | ps => .group ps

mutual

/-- The predicates of one field of an object. -/
def parseTerm (key : String) : Json → Except ConditionFault (List Predicate)
  | .arr items =>
    match combinator? key with
    | some combine => do
      let parts ← parseItems key items
      .ok [combine parts]
    | none => parseField key (.arr items)
  | .obj fields =>
    match combinator? key with
    | some combine => do
      let parts ← parseSingly fields
      .ok [combine parts]
    | none => parseField key (.obj fields)
  | v =>
    match combinator? key with
    | some _ => .error (.partsNotAContainer key v.kind)
    | none => parseField key v

/-- The predicates of all fields of an object, in order. -/
def parseTerms : List (String × Json) → Except ConditionFault (List Predicate)
  | [] => .ok []
  | (key, v) :: rest => do
    let predicates ← parseTerm key v
    let others ← parseTerms rest
    .ok (predicates ++ others)

/-- Each item of an array as a sub-condition. -/
def parseItems (key : String) : List Json → Except ConditionFault (List Predicate)
  | [] => .ok []
  | .obj fields :: rest => do
    let predicates ← parseTerms fields
    let others ← parseItems key rest
    .ok (grouped predicates :: others)
  | v :: _ => .error (.itemNotAnObject key v.kind)

/-- Each field of an object as a sub-condition. -/
def parseSingly : List (String × Json) → Except ConditionFault (List Predicate)
  | [] => .ok []
  | (key, v) :: rest => do
    let predicates ← parseTerm key v
    let others ← parseSingly rest
    .ok (grouped predicates :: others)

end

def parse : Json → Except ConditionFault Condition
  | .null => .ok empty
  | .obj fields => (parseTerms fields).map Condition.mk
  | v => .error (.notAnObject v.kind)

end Condition

end ContentTables
