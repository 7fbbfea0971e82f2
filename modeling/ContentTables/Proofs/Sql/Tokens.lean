import ContentTables.Condition.Basic
import ContentTables.Sql.Quoted

/-!
# Tokens of a clause

A clause is read one character at a time. A name ends at a backtick that no second one follows, a
word at the first character that is no capital, a sign at the first that is no part of a sign.

* `Token`, `TokenState` : what a text is made of, and where a reader of it stands;
* `TokenState.run`, `tokens?` : the tokens of a text, `none` if it has none;
* `Scans cs ts` : the text `cs` gives the tokens `ts` and leaves the reader between tokens, so the
  next text starts afresh (`Scans.append`);
* `scans_field` : the text of a comparison.
-/

namespace ContentTables

inductive Keyword where
  | and | or | not | isIn | like | between
deriving DecidableEq

def Keyword.all : List Keyword := [.and, .or, .not, .isIn, .like, .between]

def Keyword.word : Keyword → String
  | .and => "AND"
  | .or => "OR"
  | .not => "NOT"
  | .isIn => "IN"
  | .like => "LIKE"
  | .between => "BETWEEN"

/-- The operators that are written as signs. -/
def signs : List (String × Operator) :=
  [("=", .equal), (">", .greater), (">=", .greaterEqual), ("<", .less), ("<=", .lessEqual),
    ("!=", .notEqual)]

inductive Token where
  /-- A quoted name, without its quotes and with every backtick in it once. -/
  | name (s : String)
  | keyword (k : Keyword)
  | sign (operator : Operator)
  | dot | opening | closing | mark
deriving DecidableEq

inductive TokenState where
  | between
  | word (letters : List Char)
  | sign (chars : List Char)
  | name (chars : List Char)
  /-- Behind a backtick in a name, which ends it unless another one follows. -/
  | nameEnd (chars : List Char)
deriving DecidableEq

namespace TokenState

/-- The tokens that end where the text or the token ends. -/
def finish : TokenState → Option (List Token)
  | .between => some []
  | .word letters =>
    (Keyword.all.find? (·.word.toList = letters)).map fun k => [.keyword k]
  | .sign chars => (signs.find? (·.1.toList = chars)).map fun s => [.sign s.2]
  | .name _ => none
  | .nameEnd chars => some [.name (String.ofList chars)]

def isSignChar (c : Char) : Bool := c == '=' || c == '<' || c == '>' || c == '!'

/-- The first character of a token. -/
def start (c : Char) : Option (List Token × TokenState) :=
  if c = ' ' then some ([], .between)
  else if c = backtick then some ([], .name [])
  else if c = '(' then some ([.opening], .between)
  else if c = ')' then some ([.closing], .between)
  else if c = '.' then some ([.dot], .between)
  else if c = '?' then some ([.mark], .between)
  else if c.isUpper then some ([], .word [c])
  else if isSignChar c then some ([], .sign [c])
  else none

/-- Ends one token and starts the next. -/
def turn (state : TokenState) (c : Char) : Option (List Token × TokenState) :=
  state.finish.bind fun ts => (start c).map fun (us, next) => (ts ++ us, next)

def step : TokenState → Char → Option (List Token × TokenState)
  | .between, c => start c
  | .word letters, c => if c.isUpper then some ([], .word (letters ++ [c])) else turn (.word letters) c
  | .sign chars, c => if isSignChar c then some ([], .sign (chars ++ [c])) else turn (.sign chars) c
  | .name chars, c =>
    if c = backtick then some ([], .nameEnd chars) else some ([], .name (chars ++ [c]))
  | .nameEnd chars, c =>
    if c = backtick then some ([], .name (chars ++ [c])) else turn (.nameEnd chars) c

end TokenState

/-- The tokens that a text completes, and the state behind it. -/
def TokenState.run : TokenState → List Char → Option (List Token × TokenState)
  | state, [] => some ([], state)
  | state, c :: cs =>
    (state.step c).bind fun (ts, next) => (run next cs).map fun (us, last) => (ts ++ us, last)

def tokens? (cs : List Char) : Option (List Token) :=
  (TokenState.between.run cs).bind fun (ts, last) => last.finish.map (ts ++ ·)

namespace TokenState

theorem run_append (state : TokenState) (cs ds : List Char) :
    state.run (cs ++ ds) =
      (state.run cs).bind fun (ts, next) => (next.run ds).map fun (us, last) => (ts ++ us, last) := by
  induction cs generalizing state with
  | nil => simp [run]
  | cons c cs ih =>
    rw [List.cons_append, run, run, Option.bind_assoc]
    congr 1
    funext ⟨ts, next⟩
    simp only [ih]
    cases next.run cs with
    | none => rfl
    | some here => simp [Option.map_map, Function.comp_def, List.append_assoc]

theorem run_append_of {state mid last : TokenState} {cs ds : List Char} {ts us : List Token}
    (h : state.run cs = some (ts, mid)) (h' : mid.run ds = some (us, last)) :
    state.run (cs ++ ds) = some (ts ++ us, last) := by
  simp only [run_append, h, Option.bind_some, h', Option.map_some]

/-- The body of a quoted name is collected with every backtick once. -/
theorem run_doubled (cs chars : List Char) :
    (TokenState.name chars).run (cs.flatMap fun c => if c == backtick then [c, c] else [c]) =
      some ([], .name (chars ++ cs)) := by
  induction cs generalizing chars with
  | nil => simp [run]
  | cons c cs ih =>
    have here : (TokenState.name chars).run (if c == backtick then [c, c] else [c]) =
        some ([], .name (chars ++ [c])) := by
      by_cases h : c = backtick
      · subst h; simp [run, step]
      · simp [run, step, h]
    rw [List.flatMap_cons, run_append_of here (ih _), List.append_assoc]
    rfl

theorem run_quoteIdent (name : String) :
    TokenState.between.run (quoteIdent name).toList = some ([], .nameEnd name.toList) := by
  have opened : TokenState.between.run [backtick] = some ([], .name []) := by decide
  have closed : (TokenState.name name.toList).run [backtick] = some ([], .nameEnd name.toList) := by
    simp [run, step]
  rw [quoteIdent, quotedBy, String.toList_ofList, List.cons_append]
  exact run_append_of opened (run_append_of (run_doubled name.toList []) closed)

/-- A name ends where no backtick follows. -/
theorem run_nameEnd (name : String) {c : Char} (h : c ≠ backtick) (cs : List Char) :
    (TokenState.nameEnd name.toList).run (c :: cs) =
      (TokenState.between.run (c :: cs)).map fun (ts, last) => (.name name :: ts, last) := by
  simp only [run, step, if_neg h, turn, finish, Option.bind_some, String.ofList_toList]
  cases start c with
  | none => rfl
  | some next => simp [Option.map_map, Function.comp_def]

end TokenState

/-! ## Texts that stand on their own -/

def Scans (cs : List Char) (ts : List Token) : Prop :=
  TokenState.between.run cs = some (ts, .between)

instance (cs : List Char) (ts : List Token) : Decidable (Scans cs ts) :=
  inferInstanceAs (Decidable (_ = _))

theorem Scans.append {cs ds : List Char} {ts us : List Token} (h : Scans cs ts) (h' : Scans ds us) :
    Scans (cs ++ ds) (ts ++ us) := by
  exact TokenState.run_append_of h h'

theorem Scans.tokens? {cs : List Char} {ts : List Token} (h : Scans cs ts) :
    tokens? cs = some ts := by
  unfold Scans at h
  rw [ContentTables.tokens?, h]
  show some (ts ++ []) = some ts
  rw [List.append_nil]

/-- A quoted name before a text that begins with no backtick. -/
theorem Scans.quoteIdent {c : Char} {cs : List Char} {ts : List Token} (h : Scans (c :: cs) ts)
    (hc : c ≠ backtick) (name : String) :
    Scans ((quoteIdent name).toList ++ c :: cs) (.name name :: ts) := by
  have named : (TokenState.nameEnd name.toList).run (c :: cs) = some (.name name :: ts, .between) := by
    unfold Scans at h
    rw [TokenState.run_nameEnd name hc, h]
    rfl
  exact TokenState.run_append_of (TokenState.run_quoteIdent name) named

def Operator.tokens : Operator → List Token
  | .isIn => [.keyword .isIn, .opening, .mark, .closing]
  | .notIn => [.keyword .not, .keyword .isIn, .opening, .mark, .closing]
  | .like => [.keyword .like, .mark]
  | .notLike => [.keyword .not, .keyword .like, .mark]
  | .between => [.keyword .between, .mark, .keyword .and, .mark]
  | operator => [.sign operator, .mark]

theorem scans_placeholder (operator : Operator) :
    Scans (' ' :: operator.placeholder.toList) operator.tokens := by
  cases operator <;> decide

def columnTokens (table : Option String) (column : String) : List Token :=
  match table with
  | some t => [.name t, .dot, .name column]
  | none => [.name column]

/-- The text of a comparison: a column, a blank, and the operator with its placeholders. -/
theorem scans_field (table : Option String) (column : String) (operator : Operator) :
    Scans (qualified table column ++ " " ++ operator.placeholder).toList
      (columnTokens table column ++ operator.tokens) := by
  have bare := (scans_placeholder operator).quoteIdent (by decide) column
  cases table with
  | none => simpa [qualified, columnTokens] using bare
  | some t =>
    have dot : Scans ['.'] [.dot] := by decide
    have dotted := (dot.append bare).quoteIdent (by decide) t
    simpa [qualified, columnTokens] using dotted

/-! ## What joins and encloses comparisons -/

theorem scans_and : Scans " AND ".toList [.keyword .and] := by decide

theorem scans_or : Scans " OR ".toList [.keyword .or] := by decide

theorem scans_opening : Scans "(".toList [.opening] := by decide

theorem scans_closing : Scans ")".toList [.closing] := by decide

end ContentTables
