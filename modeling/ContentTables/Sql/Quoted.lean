/-!
# Quoting

* `quoteIdent` : a name between backticks, a backtick inside it written twice;
* `quoteLiteral` : a text between single quotes, a quote or a backslash inside it written twice;
* `qualified` : a column name behind the name of its table.

`ScanState` says where a reader of a statement stands, one character at a time. Inside single and
double quotes a backslash takes the next character with it. A quote written twice ends the quoted
part and starts the next one, which is the same as staying inside.

* `ScanState.step` : the state after a character;
* `marks` : every character of a text with the state before it;
* `unquotedChars` : the characters outside quotes, the quotes themselves left out.
-/

namespace ContentTables

/-- The quote of names. -/
def backtick : Char := '\x60'

/-- A text between two quotes; the characters of which `twice` holds are written twice. -/
def quotedBy (quote : Char) (twice : Char → Bool) (cs : List Char) : List Char :=
  quote :: (cs.flatMap fun c => if twice c then [c, c] else [c]) ++ [quote]

def quoteIdent (name : String) : String :=
  String.ofList (quotedBy backtick (· == backtick) name.toList)

def quoteLiteral (text : String) : String :=
  String.ofList (quotedBy '\'' (fun c => c == '\'' || c == '\\') text.toList)

/-- A column, behind its table where one is given. -/
def qualified (table : Option String) (column : String) : String :=
  match table with
  | some t => quoteIdent t ++ "." ++ quoteIdent column
  | none => quoteIdent column

/-! ## Reading -/

def isQuote (c : Char) : Bool := c == '\'' || c == '"' || c == backtick

inductive ScanState where
  | outside
  | inside (quote : Char)
  /-- Behind a backslash inside quotes. -/
  | escaped (quote : Char)
deriving DecidableEq

namespace ScanState

def step : ScanState → Char → ScanState
  | .outside, c => if isQuote c then .inside c else .outside
  | .inside quote, c =>
    if c = '\\' ∧ quote ≠ backtick then .escaped quote
    else if c = quote then .outside
    else .inside quote
  | .escaped quote, _ => .inside quote

/-- The state after a whole text. -/
def run (state : ScanState) (cs : List Char) : ScanState := cs.foldl step state

@[simp] theorem run_nil (state : ScanState) : state.run [] = state := rfl

@[simp] theorem run_cons (state : ScanState) (c : Char) (cs : List Char) :
    state.run (c :: cs) = (state.step c).run cs := rfl

@[simp] theorem run_append (state : ScanState) (cs ds : List Char) :
    state.run (cs ++ ds) = (state.run cs).run ds := List.foldl_append

end ScanState

def marksFrom : ScanState → List Char → List (Char × ScanState)
  | _, [] => []
  | state, c :: cs => (c, state) :: marksFrom (state.step c) cs

def marks (cs : List Char) : List (Char × ScanState) := marksFrom .outside cs

def unquotedChars (cs : List Char) : List Char :=
  ((marks cs).filter fun (c, state) => state == .outside && !isQuote c).map Prod.fst

theorem marksFrom_append (state : ScanState) (cs ds : List Char) :
    marksFrom state (cs ++ ds) = marksFrom state cs ++ marksFrom (state.run cs) ds := by
  induction cs generalizing state with
  | nil => rfl
  | cons c cs ih => simp [marksFrom, ih]

/-- The body of a quoted name leaves a reader inside it. -/
theorem run_doubled_backticks (cs : List Char) :
    (ScanState.inside backtick).run
      (cs.flatMap fun c => if c == backtick then [c, c] else [c]) = .inside backtick := by
  induction cs with
  | nil => rfl
  | cons c cs ih =>
    rw [List.flatMap_cons, ScanState.run_append]
    have here : (ScanState.inside backtick).run (if c == backtick then [c, c] else [c]) =
        .inside backtick := by
      by_cases h : c = backtick
      · subst h; rfl
      · simp [ScanState.step, h]
    rw [here, ih]

/-- A name is read as one quoted part, whatever it holds. -/
theorem run_quoteIdent (name : String) :
    ScanState.outside.run (quoteIdent name).toList = .outside := by
  simp only [quoteIdent, quotedBy, String.toList_ofList, List.cons_append, ScanState.run_cons,
    ScanState.run_append]
  rw [show ScanState.outside.step backtick = .inside backtick from rfl, run_doubled_backticks]
  rfl

example : quoteIdent "a\x60b" = "\x60a\x60\x60b\x60" := by decide
example : quoteLiteral "it's \\" = "'it''s \\\\'" := by decide
example : unquotedChars "a = 'it''s ?' \x60?\x60".toList = "a =  ".toList := by decide

end ContentTables
