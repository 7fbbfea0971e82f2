import ContentTables.Query.Join
import ContentTables.Proofs.Sql.StatementWords

/-!
# What the statement of a join says

* `JoinText`, `JoinStep` : what is said of a join: the columns with their tables, the tables and how
  each is joined, and the condition, as a text;
* `readJoin?` : the reader, which goes through the words of a statement;
* `readSteps?_joinsFrom` : each table is read as joined to the one before it;
* `readCondition?_whereSql` : the condition ends where grouping, ordering or the limit begins;
* `readJoin?_statement` : the text of a statement is read, and says what its tables do.
-/

namespace ContentTables

/-! ## Reading -/

/-- Two tables that are joined, each with the column that is compared. -/
structure JoinStep where
  direction : JoinDirection
  table : String
  left : String × String
  right : String × String
deriving DecidableEq

structure JoinText where
  /-- Each with its table; all columns of it if `none`. -/
  selected : List (String × Option String)
  anchor : String
  steps : List JoinStep
  condition : Option String
deriving DecidableEq

def columnOf? (text : String) : Option (String × Option String) :=
  match leadingName? text.toList with
  | some (table, '.' :: rest) =>
    if rest = ['*'] then some (table, none)
    else (quotedName? (String.ofList rest)).map fun column => (table, some column)
  | _ => none

def keyOf? (text : String) : Option (String × String) :=
  (columnOf? text).bind fun (table, column) => column.map fun c => (table, c)

def directionOf? (word : String) : Option JoinDirection :=
  if word = "LEFT" then some .left else if word = "RIGHT" then some .right else none

/-- The tables that are joined, and the words behind them. -/
def readSteps? : List String → Option (List JoinStep × List String)
  | [] => some ([], [])
  | word :: ws =>
    match directionOf? word with
    | none => some ([], word :: ws)
    | some direction =>
      match ws with
      | join :: table :: on :: left :: sign :: right :: rest =>
        if join = "JOIN" ∧ on = "ON" ∧ sign = "=" then do
          let table ← quotedName? table
          let left ← keyOf? left
          let right ← keyOf? right
          let (steps, rest) ← readSteps? rest
          some (⟨direction, table, left, right⟩ :: steps, rest)
        else none
      | _ => none

/-- The text behind `WHERE`, up to the next keyword. -/
def readCondition? : List String → Option String
  | [] => none
  | word :: ws =>
    if word = "WHERE" then some (" ".intercalate (ws.takeWhile fun w => !clauseEnds.contains w))
    else none

def readJoin? (sql : String) : Option JoinText :=
  match words sql with
  | [] => none
  | first :: ws =>
    match ws.dropWhile (· != "FROM") with
    | _ :: anchor :: sources =>
      if first = "SELECT" then do
        let columns := " ".intercalate (ws.takeWhile (· != "FROM"))
        let selected ← (items columns).mapM columnOf?
        let anchor ← quotedName? anchor
        let (steps, rest) ← readSteps? sources
        some { selected, anchor, steps, condition := readCondition? rest }
      else none
    | _ => none

/-! ## What is to be said -/

def JoinTable.saidColumns (t : JoinTable) (naming : TableNaming) : List (String × Option String) :=
  match t.columns with
  | none => [(t.physical naming, none)]
  | some names => names.map fun name => (t.physical naming, some name)

def JoinTable.saidKey (t : JoinTable) (naming : TableNaming) : String × String :=
  (t.physical naming, t.relation)

/-- A table is joined to the one before it. -/
def JoinQuery.saidStep (direction : JoinDirection) (naming : TableNaming)
    (previous t : JoinTable) : JoinStep :=
  ⟨direction, t.physical naming, previous.saidKey naming, t.saidKey naming⟩

/-! ## Columns -/

section Columns
variable (table column : String)

theorem columnOf?_all : columnOf? (quoteIdent table ++ ".*") = some (table, none) := by
  have hname := leadingName?_quoteIdent table ['.', '*'] (by decide)
  have hchars : (quoteIdent table ++ ".*").toList = (quoteIdent table).toList ++ ['.', '*'] := by
    simp
  rw [columnOf?, hchars, hname]
  rfl

theorem columnOf?_qualified :
    columnOf? (qualified (some table) column) = some (table, some column) := by
  have hname := leadingName?_quoteIdent table ('.' :: (quoteIdent column).toList)
    (by simp [backtick])
  have hchars : (qualified (some table) column).toList =
      (quoteIdent table).toList ++ '.' :: (quoteIdent column).toList := by simp [qualified]
  have hone : (quoteIdent column).toList ≠ ['*'] := by
    intro hstar
    have hhead := head?_quoteIdent column
    rw [hstar] at hhead
    exact absurd hhead (by decide)
  rw [columnOf?, hchars, hname]
  show (if _ then _ else _) = _
  rw [if_neg hone, String.ofList_toList, quotedName?_quoteIdent]
  rfl

theorem keyOf?_qualified : keyOf? (qualified (some table) column) = some (table, column) := by
  rw [keyOf?, columnOf?_qualified]
  rfl

end Columns

namespace JoinTable

variable {t : JoinTable} {naming : TableNaming}

theorem selected_spec (t : JoinTable) (naming : TableNaming) :
    (t.selected naming).mapM columnOf? = some (t.saidColumns naming) := by
  unfold selected saidColumns
  cases t.columns with
  | none =>
    rw [List.mapM_cons, columnOf?_all]
    rfl
  | some names =>
    rw [List.mapM_map]
    refine Document.mapM_eq_some_map fun name _ => ?_
    rw [Function.comp_apply]
    exact columnOf?_qualified _ name

theorem single_selected (sep : Char) (hsep : sep ∈ separators) {text : String}
    (h : text ∈ t.selected naming) :
    Single sep text.toList ∧ text.toList.head? = some backtick := by
  unfold selected at h
  split at h
  · obtain rfl := List.mem_singleton.mp h
    have hall : Single sep ".*".toList := single_word hsep (by decide)
    exact ⟨(single_quoteIdent sep _).append_text hall, head?_append (head?_quoteIdent _) _⟩
  · obtain ⟨name, _, rfl⟩ := List.mem_map.mp h
    exact ⟨single_qualified hsep _ name, head?_qualified _ name⟩

end JoinTable

namespace JoinQuery

variable {naming : TableNaming} {tables : List JoinTable}

theorem selectedText_spec (tables : List JoinTable) (naming : TableNaming) :
    (items (commaSeparated (tables.flatMap (·.selected naming)))).mapM columnOf? =
      some (tables.flatMap (·.saidColumns naming)) := by
  rw [items_commaSeparated]
  · induction tables with
    | nil => rfl
    | cons t tables ih =>
      rw [List.flatMap_cons, List.mapM_append, t.selected_spec, ih]
      rfl
  · intro text htext
    obtain ⟨t, _, ht⟩ := List.mem_flatMap.mp htext
    exact (JoinTable.single_selected ',' (by decide) ht).1
  · intro text htext
    obtain ⟨t, _, ht⟩ := List.mem_flatMap.mp htext
    exact ⟨backtick, (JoinTable.single_selected ',' (by decide) ht).2, by decide⟩

/-- No column is taken for the keyword behind the columns. -/
theorem from_notMem_words :
    "FROM" ∉ words (commaSeparated (tables.flatMap (·.selected naming))) := by
  have hselected : ∀ text ∈ tables.flatMap (·.selected naming),
      Single ' ' text.toList ∧ text.toList.head? = some backtick := by
    intro text htext
    obtain ⟨t, _, ht⟩ := List.mem_flatMap.mp htext
    exact JoinTable.single_selected ' ' (by decide) ht
  intro hmem
  rcases mem_words_commaSeparated (fun text htext => (hselected text htext).1) hmem with
    hempty | ⟨text, htext, hword⟩
  · exact absurd hempty (by decide)
  · have hhead : "FROM".toList.head? = some backtick := by
      rcases hword with hword | hword
      · rw [hword]
        exact (hselected text htext).2
      · rw [hword]
        exact head?_append (hselected text htext).2 _
    exact absurd hhead (by decide)

/-! ## Tables -/

def directionWord : JoinDirection → String
  | .left => "LEFT"
  | .right => "RIGHT"

theorem directionOf?_directionWord (d : JoinDirection) :
    directionOf? (directionWord d) = some d := by
  cases d <;> decide

def joinWords (d : JoinDirection) (naming : TableNaming) (previous t : JoinTable) : List String :=
  [directionWord d, "JOIN", quoteIdent (t.physical naming), "ON", previous.key naming, "=",
    t.key naming]

theorem single_joinWords {d : JoinDirection} {previous t : JoinTable} :
    ∀ w ∈ joinWords d naming previous t, Single ' ' w.toList := by
  have hword : ∀ word : String, word.toList.all isWordChar = true → Single ' ' word.toList :=
    fun _ h => single_word (by decide) h
  have hkey : ∀ t : JoinTable, Single ' ' (t.key naming).toList := fun t =>
    single_qualified (by decide) _ _
  unfold joinWords
  simp only [List.forall_mem_cons]
  refine ⟨?_, hword "JOIN" (by decide), single_quoteIdent ' ' _, hword "ON" (by decide),
    hkey previous, hword "=" (by decide), hkey t, List.forall_mem_nil _⟩
  cases d with
  | left => exact hword "LEFT" (by decide)
  | right => exact hword "RIGHT" (by decide)

theorem joinsFrom_cons (d : JoinDirection) (naming : TableNaming) (previous t : JoinTable)
    (ts : List JoinTable) : joinsFrom d naming previous (t :: ts) =
      " ".intercalate (joinWords d naming previous t) :: joinsFrom d naming t ts := by
  have hdirection : d.sql = directionWord d ++ " " ++ "JOIN" := by cases d <;> decide
  have hon : " ON " = " " ++ "ON" ++ " " := by decide
  have hsign : " = " = " " ++ "=" ++ " " := by decide
  rw [joinsFrom, joinWords, hdirection, hon, hsign]
  simp only [String.intercalate_cons_cons, String.intercalate_singleton, String.append_assoc]

theorem balanced_joinsFrom {d : JoinDirection} {previous : JoinTable} {ts : List JoinTable} :
    ∀ text ∈ joinsFrom d naming previous ts, Balanced text.toList := by
  induction ts generalizing previous with
  | nil => exact List.forall_mem_nil _
  | cons t ts ih =>
    rw [joinsFrom_cons]
    refine List.forall_mem_cons.mpr ⟨?_, ih⟩
    exact of_intercalate .nil .append (.plain (by decide)) fun w hw =>
      (single_joinWords w hw).toBalanced

theorem readSteps?_joinsFrom {ws : List String} (hws : ∀ w ∈ ws.head?, directionOf? w = none)
    (d : JoinDirection) (naming : TableNaming) (previous : JoinTable) (ts : List JoinTable) :
    readSteps? ((joinsFrom d naming previous ts).flatMap words ++ ws) =
      some (List.zipWith (saidStep d naming) (previous :: ts) ts, ws) := by
  induction ts generalizing previous with
  | nil =>
    show readSteps? ws = some ([], ws)
    cases ws with
    | nil => rfl
    | cons w ws => rw [readSteps?, hws w rfl]
  | cons t ts ih =>
    have hwords : words (" ".intercalate (joinWords d naming previous t)) =
        joinWords d naming previous t :=
      words_intercalate_single (List.cons_ne_nil _ _) single_joinWords
    rw [joinsFrom_cons, List.flatMap_cons, hwords, List.append_assoc]
    simp only [joinWords, List.cons_append, List.nil_append, readSteps?, directionOf?_directionWord,
      quotedName?_quoteIdent, JoinTable.key, keyOf?_qualified, Option.bind_eq_bind,
      Option.bind_some, ih t, and_self, if_true, List.zipWith_cons_cons]
    rfl

/-! ## What follows the tables -/

/-- Nothing, or one of the keywords that end a condition. -/
def Ends (rest : String) : Prop :=
  ∃ ws, Follows rest ws ∧ ∀ w ∈ ws.head?, w ∈ clauseEnds

theorem ends_nothing : Ends "" := ⟨[], .nothing, nofun⟩

theorem ends_keyword {word : String} (hword : Single ' ' word.toList) (hend : word ∈ clauseEnds)
    (rest : String) : Ends (" " ++ (word ++ (" " ++ rest))) := by
  refine ⟨_, (Follows.blank rest).word word hword, fun w hw => ?_⟩
  obtain rfl := Option.some.inj hw
  exact hend

theorem ends_limit (page perPage : UInt32) : Ends (limitSql page perPage) := by
  unfold limitSql
  split
  · exact ends_nothing
  · have hlimit : " LIMIT " = " " ++ ("LIMIT" ++ " ") := by decide
    rw [hlimit]
    simp only [String.append_assoc]
    exact ends_keyword (.plain (by decide)) (by decide) _

theorem ends_order (column : Option String) (order : Order) {rest : String} (h : Ends rest) :
    Ends (orderSql column order ++ rest) := by
  cases column with
  | none =>
    show Ends ("" ++ rest)
    rwa [String.empty_append]
  | some column =>
    have horder : " ORDER BY " = " " ++ ("ORDER" ++ (" " ++ "BY ")) := by decide
    unfold orderSql
    simp only [horder, String.append_assoc]
    exact ends_keyword (.plain (by decide)) (by decide) _

theorem ends_group (columns : List String) {rest : String} (h : Ends rest) :
    Ends (groupSql columns ++ rest) := by
  unfold groupSql
  split
  · rwa [String.empty_append]
  · have hgroup : " GROUP BY " = " " ++ ("GROUP" ++ (" " ++ "BY ")) := by decide
    rw [hgroup]
    simp only [String.append_assoc]
    exact ends_keyword (.plain (by decide)) (by decide) _

theorem directionOf?_of_clauseEnd {w : String} (h : w ∈ clauseEnds) : directionOf? w = none := by
  simp only [clauseEnds, List.mem_cons, List.not_mem_nil, or_false] at h
  rcases h with rfl | rfl | rfl <;> decide

section Ended
variable {ws : List String} (hends : ∀ w ∈ ws.head?, w ∈ clauseEnds)
include hends

theorem readCondition?_of_ends : readCondition? ws = none := by
  cases ws with
  | nil => rfl
  | cons w ws =>
    have hother : w ≠ "WHERE" := by
      rintro rfl
      exact absurd (hends "WHERE" rfl) (by decide)
    rw [readCondition?, if_neg hother]

theorem readCondition?_where {text : String} (hphrase : Phrase text) :
    readCondition? ("WHERE" :: (words text ++ ws)) = some text := by
  have hunended : ∀ w ∈ words text, (!clauseEnds.contains w) = true := by
    intro w hw
    simpa using hphrase.unended w hw
  have htake : (words text ++ ws).takeWhile (fun w => !clauseEnds.contains w) = words text := by
    rw [List.takeWhile_append_of_pos hunended]
    cases ws with
    | nil => simp
    | cons w ws => simp [hends w rfl]
  rw [readCondition?, if_pos rfl, htake, intercalate_words]

end Ended

/-- The condition stands behind its keyword, and nothing else is read as it. -/
theorem readCondition?_whereSql {c : Clause} (hphrase : c.isEmpty = false → Phrase c.sql)
    {rest : String} (h : Ends rest) : ∃ ws, Follows (c.whereSql ++ rest) ws ∧
      (∀ w ∈ ws.head?, directionOf? w = none) ∧
      readCondition? ws = if c.isEmpty then none else some c.sql := by
  obtain ⟨ws, hfollows, hends⟩ := h
  cases hempty : c.isEmpty with
  | true =>
    refine ⟨ws, ?_, fun w hw => directionOf?_of_clauseEnd (hends w hw),
      readCondition?_of_ends hends⟩
    rwa [Clause.whereSql, hempty, if_pos rfl, String.empty_append]
  | false =>
    have hphrase := hphrase hempty
    have hwhere : " WHERE " = " " ++ ("WHERE" ++ " ") := by decide
    refine ⟨"WHERE" :: (words c.sql ++ ws), ?_, ?_, readCondition?_where hends hphrase⟩
    · rw [Clause.whereSql, hempty, if_neg Bool.false_ne_true, hwhere]
      simp only [String.append_assoc]
      exact (hfollows.append c.sql hphrase.balanced).word "WHERE" (.plain (by decide))
    · intro w hw
      obtain rfl := Option.some.inj hw
      decide

/-! ## The whole statement -/

theorem phrase_joinedClause {clauses : List Clause}
    (h : ∀ c ∈ clauses, c.isEmpty = false → Phrase c.sql)
    (hfull : (joinedClause clauses).isEmpty = false) : Phrase (joinedClause clauses).sql := by
  have hparts : ∀ text ∈ (clauses.filter fun c => !c.isEmpty).map (·.sql), Phrase text := by
    intro text htext
    obtain ⟨c, hc, rfl⟩ := List.mem_map.mp htext
    obtain ⟨hmem, hnonempty⟩ := List.mem_filter.mp hc
    exact h c hmem (by simpa using hnonempty)
  have hfull : (" AND ".intercalate ((clauses.filter fun c => !c.isEmpty).map (·.sql)) == "") =
      false := hfull
  show Phrase (" AND ".intercalate ((clauses.filter fun c => !c.isEmpty).map (·.sql)))
  generalize (clauses.filter fun c => !c.isEmpty).map (·.sql) = texts at hparts hfull
  cases texts with
  | nil => cases hfull
  | cons text texts => exact .conjunction hparts

/-- The words of a statement, from those of what follows its tables. -/
theorem words_statement {d : JoinDirection} {anchor : JoinTable} {others : List JoinTable}
    {rest : String} {ws : List String} (h : Follows rest ws) :
    words ("SELECT " ++ (commaSeparated (tables.flatMap (·.selected naming)) ++ (" FROM " ++
      (" ".intercalate (quoteIdent (anchor.physical naming) :: joinsFrom d naming anchor others) ++
        rest)))) =
    "SELECT" :: (words (commaSeparated (tables.flatMap (·.selected naming))) ++
      "FROM" :: quoteIdent (anchor.physical naming) ::
        ((joinsFrom d naming anchor others).flatMap words ++ ws)) := by
  have hbalanced : ∀ text ∈ quoteIdent (anchor.physical naming) :: joinsFrom d naming anchor others,
      Balanced text.toList :=
    List.forall_mem_cons.mpr ⟨(single_quoteIdent ' ' _).toBalanced, balanced_joinsFrom⟩
  have hselected : Balanced (commaSeparated (tables.flatMap (·.selected naming))).toList := by
    refine of_intercalate .nil .append (.plain (by decide)) fun text htext => ?_
    obtain ⟨t, _, ht⟩ := List.mem_flatMap.mp htext
    exact (JoinTable.single_selected ' ' (by decide) ht).1.toBalanced
  -- from the end: the tables, the keyword in front of them, and the columns
  have hsources := h.append (" ".intercalate (quoteIdent (anchor.physical naming) ::
      joinsFrom d naming anchor others))
    (of_intercalate .nil .append (.plain (by decide)) hbalanced)
  have hfrom := hsources.word "FROM" (.plain (by decide))
  have hcolumns := (hfrom.append _ hselected).words_append "SELECT" (.plain (by decide))
  have hkeywords : "SELECT " = "SELECT" ++ " " ∧ " FROM " = " " ++ ("FROM" ++ " ") := by decide
  have hselect : words "SELECT" = ["SELECT"] := by decide
  rw [words_intercalate (List.cons_ne_nil _ _) hbalanced, List.flatMap_cons,
    words_eq_singleton (single_quoteIdent ' ' _), hselect] at hcolumns
  simp only [hkeywords, String.append_assoc] at hcolumns ⊢
  simpa using hcolumns

theorem readJoin?_of_words {sql anchor name : String} {columns sources rest : List String}
    {selected : List (String × Option String)} {steps : List JoinStep}
    (h : words sql = "SELECT" :: (columns ++ "FROM" :: anchor :: sources))
    (hcolumns : "FROM" ∉ columns)
    (hselected : (items (" ".intercalate columns)).mapM columnOf? = some selected)
    (hanchor : quotedName? anchor = some name) (hsteps : readSteps? sources = some (steps, rest)) :
    readJoin? sql =
      some { selected, anchor := name, steps, condition := readCondition? rest } := by
  have hbefore : ∀ w ∈ columns, (w != "FROM") = true := by
    intro w hw
    rw [bne_iff_ne]
    rintro rfl
    exact hcolumns hw
  have htake : (columns ++ "FROM" :: anchor :: sources).takeWhile (· != "FROM") = columns := by
    rw [List.takeWhile_append_of_pos hbefore]
    exact List.append_nil columns
  have hdrop : (columns ++ "FROM" :: anchor :: sources).dropWhile (· != "FROM") =
      "FROM" :: anchor :: sources := List.dropWhile_append_of_pos hbefore
  simp only [readJoin?, h, hdrop, htake, hselected, hanchor, hsteps, if_true, Option.bind_eq_bind,
    Option.bind_some]

theorem exists_statement {q : JoinQuery} {anchor : JoinTable} {others : List JoinTable}
    (htables : q.tables = anchor :: others) (naming : TableNaming) :
    let clause := joinedClause (q.tables.map (·.clause naming))
    ∃ rest, Ends rest ∧ q.statement naming = .ok ⟨
      "SELECT " ++ (commaSeparated (q.tables.flatMap (·.selected naming)) ++ (" FROM " ++
        (" ".intercalate (quoteIdent (anchor.physical naming) ::
          joinsFrom q.direction naming anchor others) ++ (clause.whereSql ++ rest)))),
      clause.params⟩ := by
  refine ⟨?rest, ?ends, ?statement⟩
  case statement =>
    rw [statement, htables]
    simp only [String.append_assoc]
    rfl
  case ends => exact ends_group _ (ends_order _ q.order (ends_limit q.page q.perPage))

/-- The columns are read with their tables, each table is joined to the one before it, and the
condition is that of all tables. -/
theorem readJoin?_statement {q : JoinQuery} {anchor : JoinTable} {others : List JoinTable}
    (htables : q.tables = anchor :: others) (naming : TableNaming) :
    let clause := joinedClause (q.tables.map (·.clause naming))
    ∃ s, q.statement naming = .ok s ∧ s.params = clause.params ∧ readJoin? s.sql = some {
      selected := q.tables.flatMap (·.saidColumns naming)
      anchor := anchor.physical naming
      steps := List.zipWith (saidStep q.direction naming) q.tables others
      condition := if clause.isEmpty then none else some clause.sql } := by
  intro clause
  have hphrase : clause.isEmpty = false → Phrase clause.sql := by
    refine phrase_joinedClause fun c hc => ?_
    obtain ⟨t, _, rfl⟩ := List.mem_map.mp hc
    exact t.condition.phrase_compile _
  obtain ⟨rest, hends, hstatement⟩ := exists_statement htables naming
  obtain ⟨ws, hfollows, hdirection, hcondition⟩ := readCondition?_whereSql hphrase hends
  refine ⟨_, hstatement, rfl, ?_⟩
  have hselected := selectedText_spec q.tables naming
  have hsteps := readSteps?_joinsFrom hdirection q.direction naming anchor others
  rw [← intercalate_words (commaSeparated _)] at hselected
  rw [← hcondition]
  rw [← htables] at hsteps
  exact readJoin?_of_words (words_statement hfollows) from_notMem_words hselected
    (quotedName?_quoteIdent _) hsteps

end JoinQuery

end ContentTables
