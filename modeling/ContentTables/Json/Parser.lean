import ContentTables.Json.Document
import ContentTables.Json.Scanner

/-!
# Reading a text

* `Document.parse?` : the document of a text, which must be one value with nothing but space around
  it; what nests deeper than `depthLimit` is unreadable;
* `Json.parse?` : the value of a text.

Every step of the three functions below takes at least one character away, so the number of
characters bounds the number of steps.
-/

namespace ContentTables

open Scanner

namespace Document

/-- The document of a string's pieces. -/
def ofPieces (pieces : List Piece) : Document :=
  ((joinPieces? pieces).map fun cs => Document.str (String.ofList cs)).getD .unreadable

def ofLiteral (l : Literal) : Document :=
  (l.value?.map Document.num).getD .unreadable

/-- The name of a field and the colon behind it. -/
def scanName : List Char → Option (Option String × List Char)
  | '"' :: rest => do
    let (pieces, rest) ← scanString rest
    match skipSpace rest with
    | ':' :: rest => some ((joinPieces? pieces).map String.ofList, rest)
    | _ => none
  | _ => none

mutual

def scanValue : Nat → List Char → Option (Document × List Char)
  | 0, _ => none
  | n + 1, cs =>
    match skipSpace cs with
    | 'n' :: 'u' :: 'l' :: 'l' :: rest => some (.null, rest)
    | 't' :: 'r' :: 'u' :: 'e' :: rest => some (.bool true, rest)
    | 'f' :: 'a' :: 'l' :: 's' :: 'e' :: rest => some (.bool false, rest)
    | '"' :: rest => do
      let (pieces, rest) ← scanString rest
      some (ofPieces pieces, rest)
    | '[' :: rest =>
      match skipSpace rest with
      | ']' :: rest => some (.arr [], rest)
      | rest => do
        let (d, rest) ← scanValue n rest
        let (ds, rest) ← scanItems n rest
        some (.arr (d :: ds), rest)
    | '{' :: rest =>
      match skipSpace rest with
      | '}' :: rest => some (.obj [], rest)
      | rest => do
        let (name, rest) ← scanName rest
        let (d, rest) ← scanValue n rest
        let (fs, rest) ← scanFields n rest
        some (.obj ((name, d) :: fs), rest)
    | cs => do
      let (l, rest) ← scanLiteral cs
      some (ofLiteral l, rest)

/-- The items after the first one, and the closing bracket. -/
def scanItems : Nat → List Char → Option (List Document × List Char)
  | 0, _ => none
  | n + 1, cs =>
    match skipSpace cs with
    | ']' :: rest => some ([], rest)
    | ',' :: rest => do
      let (d, rest) ← scanValue n rest
      let (ds, rest) ← scanItems n rest
      some (d :: ds, rest)
    | _ => none

/-- The fields after the first one, and the closing brace. -/
def scanFields : Nat → List Char → Option (List (Option String × Document) × List Char)
  | 0, _ => none
  | n + 1, cs =>
    match skipSpace cs with
    | '}' :: rest => some ([], rest)
    | ',' :: rest => do
      let (name, rest) ← scanName (skipSpace rest)
      let (d, rest) ← scanValue n rest
      let (fs, rest) ← scanFields n rest
      some ((name, d) :: fs, rest)
    | _ => none

end

/-- Arrays and objects nest at most this deep. -/
def depthLimit : Nat := 127

def parseChars? (cs : List Char) : Option Document :=
  match scanValue (cs.length + 1) cs with
  | some (d, rest) => if (skipSpace rest).isEmpty then some (d.limitDepth depthLimit) else none
  | none => none

def parse? (s : String) : Option Document := parseChars? s.toList

end Document

def Json.parse? (s : String) : Option Json :=
  (Document.parse? s).bind Document.value?

end ContentTables
