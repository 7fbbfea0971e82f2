import ContentTables.Proofs.Sql.ColumnText

/-!
# What the statements that define tables say

* `ClauseText`, `AlterationText` : what the clauses of a new table and the steps of an alteration
  say, with `TableSchema.said` and `Alteration.said` for what they are to say;
* `readTable?`, `readAlterations?` : the readers of a statement, which split it at its commas;
* `clauses_createTable`, `clauses_alterTable` : so they come upon the clauses that it was made of;
* `definitions_readBack` : and what they read of them is what was to be said.
-/

namespace ContentTables

open Definition Place

/-! ## What clauses say -/

inductive ClauseText where
  | column (c : ColumnText)
  | index (names : List String)
deriving DecidableEq

inductive AlterationText where
  | add (c : ColumnText)
  | change (previous : String) (c : ColumnText)
  | drop (name : String)
deriving DecidableEq

def TableSchema.said (s : TableSchema) : List ClauseText :=
  (s.entries.map fun (name, c) => .column (c.said name)) ++
    if s.indexedColumns.isEmpty then [] else [.index s.indexedColumns]

def Definition.Alteration.said : Alteration → AlterationText
  | .add name c => .add (c.said name)
  | .change name c => .change name (c.said name)
  | .drop name => .drop name

/-! ## Reading clauses -/

def readClause? (clause : String) : Option ClauseText :=
  match behind? "INDEX " clause with
  | some _ => do
    let names ← (items (← inParentheses? clause)).mapM quotedName?
    some (.index names)
  | none => (readColumn? clause).map .column

def readAlteration? (clause : String) : Option AlterationText :=
  match behind? "ADD COLUMN " clause with
  | some column => (readColumn? column).map .add
  | none =>
    match behind? "CHANGE COLUMN " clause with
    | some rest => do
      let (previous, column) ← leadingName? rest.toList
      let c ← readColumn? (String.ofList (column.drop 1))
      some (.change previous c)
    | none => do
      let name ← quotedName? (← behind? "DROP COLUMN " clause)
      some (.drop name)

/-! ## Reading a statement -/

def readTable? (sql : String) : Option (List ClauseText) := do
  (items (← inParentheses? sql)).mapM readClause?

/-- The text behind the name of the table. -/
def alterationText? (sql : String) : Option String := do
  let (_, rest) ← leadingName? (← behind? "ALTER TABLE " sql).toList
  some (String.ofList (rest.drop 1))

def readAlterations? (sql : String) : Option (List AlterationText) := do
  (items (← alterationText? sql)).mapM readAlteration?

/-! ## The statement that creates a table -/

theorem readClause?_columnClause (name : String) (c : Column) :
    readClause? (columnClause name c) = some (.column (c.said name)) := by
  have hother : behind? "INDEX " (columnClause name c) = none := behind?_eq_none rfl (by
    rw [head?_columnClause]
    decide)
  rw [readClause?, hother, readColumn?_columnClause]
  rfl

theorem readClause?_index (names : List String) :
    readClause? ("INDEX (" ++ commaSeparated (names.map quoteIdent) ++ ")") =
      some (.index names) := by
  have hopened : "INDEX (" = "INDEX " ++ "(" := by decide
  have hword : Single '(' "INDEX ".toList := .plain (by decide)
  have hlist := inParentheses?_append hword (single_list (single_quoteIdent ')') names) ""
  rw [String.append_empty] at hlist
  have hindex : ∀ text, behind? "INDEX " ("INDEX " ++ text) = some text := behind?_append "INDEX "
  rw [hopened, readClause?, hlist, String.append_assoc, String.append_assoc, hindex]
  simp only [Option.bind_eq_bind, Option.bind_some, mapM_items_names]

theorem single_createClause {sep : Char} (hsep : sep = ',' ∨ sep = ')') {schema : TableSchema}
    {text : String} (h : text ∈ createClauses schema) :
    Single sep text.toList ∧ ∃ c ∈ text.toList.head?, c ≠ ' ' := by
  rcases List.mem_append.mp h with h | h
  · obtain ⟨⟨name, c⟩, _, rfl⟩ := List.mem_map.mp h
    exact ⟨single_columnClause hsep name c, backtick, head?_columnClause name c, by decide⟩
  · unfold indexClause at h
    split at h
    · exact absurd h List.not_mem_nil
    · have hopened : "INDEX (" = "INDEX " ++ "(" := by decide
      have hword : Single sep "INDEX ".toList := single_phrase hsep (by decide)
      rw [List.mem_singleton.mp h, hopened]
      refine ⟨single_parenthesized (mem_separators hsep) hword
        (single_list (single_quoteIdent ')') schema.indexedColumns).toBalanced, 'I', ?_, by decide⟩
      exact head?_append (head?_append (head?_append rfl _) _) _

theorem clauses_createTable (naming : TableNaming) (table : String) (schema : TableSchema) :
    (inParentheses? (createTable naming table schema)).map items = some (createClauses schema) := by
  have htext : createTable naming table schema =
      ("CREATE TABLE IF NOT EXISTS " ++ naming.quoted table ++ " ") ++ "(" ++
        commaSeparated (createClauses schema) ++ ")" ++ (" " ++ naming.tableOptions) := by
    unfold createTable
    generalize commaSeparated (createClauses schema) = body
    apply String.toList_inj.mp
    simp
  have hbefore :
      Single '(' ("CREATE TABLE IF NOT EXISTS " ++ naming.quoted table ++ " ").toList := by
    have hwords : Single '(' "CREATE TABLE IF NOT EXISTS ".toList := .plain (by decide)
    have hblank : Single '(' " ".toList := .plain (by decide)
    exact (hwords.append_text (single_quoteIdent '(' _)).append_text hblank
  have hinner : Single ')' (commaSeparated (createClauses schema)).toList :=
    of_intercalate (.plain rfl) .append (.plain (by decide)) fun _ htext =>
      (single_createClause (.inr rfl) htext).1
  rw [htext, inParentheses?_append hbefore hinner, Option.map_some]
  refine congrArg some (items_commaSeparated (fun _ htext => ?_) fun _ htext => ?_)
  · exact (single_createClause (.inl rfl) htext).1
  · exact (single_createClause (.inl rfl) htext).2

theorem mapM_readClause? (schema : TableSchema) :
    (createClauses schema).mapM readClause? = some schema.said := by
  have hcolumns : (schema.entries.map fun (name, c) => columnClause name c).mapM readClause? =
      some (schema.entries.map fun (name, c) => .column (c.said name)) := by
    rw [List.mapM_map]
    refine Document.mapM_eq_some_map ?_
    rintro ⟨name, c⟩ _
    rw [Function.comp_apply]
    exact readClause?_columnClause name c
  have hindex : (indexClause schema.indexedColumns).mapM readClause? =
      some (if schema.indexedColumns.isEmpty then [] else [.index schema.indexedColumns]) := by
    unfold indexClause
    split
    · rfl
    · rw [List.mapM_cons, readClause?_index]
      rfl
  rw [createClauses, List.mapM_append, hcolumns, hindex]
  rfl

/-! ## The statement that alters a table -/

/-- The first letter tells the steps apart. -/
def Definition.Alteration.letter : Alteration → Char
  | .add .. => 'A'
  | .change .. => 'C'
  | .drop .. => 'D'

theorem letter_ne_blank (a : Alteration) : a.letter ≠ ' ' := by
  cases a with
  | add | change | drop => exact of_decide_eq_true rfl

theorem head?_sql (a : Alteration) : a.sql.toList.head? = some a.letter := by
  cases a with
  | add name c => exact head?_append rfl _
  | change name c => exact head?_append (head?_append (head?_append rfl _) _) _
  | drop name => exact head?_append rfl _

theorem behind?_sql_eq_none {a : Alteration} {front : String} {c : Char}
    (hfront : front.toList.head? = some c) (h : a.letter ≠ c) : behind? front a.sql = none :=
  behind?_eq_none hfront (by rw [head?_sql]; exact fun heq => h (Option.some.inj heq))

theorem single_sql (a : Alteration) : Single ',' a.sql.toList := by
  have hclause : ∀ name c, Single ',' (columnClause name c).toList :=
    single_columnClause (.inl rfl)
  cases a with
  | add name c =>
    have hword : Single ',' "ADD COLUMN ".toList := .plain (by decide)
    exact hword.append_text (hclause name c)
  | change name c =>
    have hword : Single ',' "CHANGE COLUMN ".toList := .plain (by decide)
    have hblank : Single ',' " ".toList := .plain (by decide)
    have hname := (hword.append_text (single_quoteIdent ',' name)).append_text hblank
    exact hname.append_text (hclause name c)
  | drop name =>
    have hword : Single ',' "DROP COLUMN ".toList := .plain (by decide)
    exact hword.append_text (single_quoteIdent ',' name)

theorem leadingName?_quoteIdent_blank (name text : String) :
    leadingName? (quoteIdent name ++ (" " ++ text)).toList = some (name, ' ' :: text.toList) := by
  have hchars : (quoteIdent name ++ (" " ++ text)).toList =
      (quoteIdent name).toList ++ ' ' :: text.toList := by simp
  rw [hchars]
  exact leadingName?_quoteIdent name _ (by simp [backtick])

theorem readAlteration?_sql (a : Alteration) : readAlteration? a.sql = some a.said := by
  cases a with
  | add name c =>
    have hadd : behind? "ADD COLUMN " (Alteration.add name c).sql = some (columnClause name c) :=
      behind?_append "ADD COLUMN " _
    rw [readAlteration?, hadd]
    simp only [readColumn?_columnClause]
    rfl
  | change name c =>
    have htext : (Alteration.change name c).sql =
        "CHANGE COLUMN " ++ (quoteIdent name ++ (" " ++ columnClause name c)) := by
      show "CHANGE COLUMN " ++ quoteIdent name ++ " " ++ columnClause name c = _
      rw [String.append_assoc, String.append_assoc]
    have hadd : behind? "ADD COLUMN " (Alteration.change name c).sql = none :=
      behind?_sql_eq_none (c := 'A') rfl (of_decide_eq_true rfl)
    have hchange : behind? "CHANGE COLUMN " (Alteration.change name c).sql =
        some (quoteIdent name ++ (" " ++ columnClause name c)) := by
      rw [htext]
      exact behind?_append "CHANGE COLUMN " _
    rw [readAlteration?, hadd, hchange]
    simp only [Option.bind_eq_bind, leadingName?_quoteIdent_blank, Option.bind_some, List.drop_one,
      List.tail_cons, String.ofList_toList, readColumn?_columnClause]
    rfl
  | drop name =>
    have hadd : behind? "ADD COLUMN " (Alteration.drop name).sql = none :=
      behind?_sql_eq_none (c := 'A') rfl (of_decide_eq_true rfl)
    have hchange : behind? "CHANGE COLUMN " (Alteration.drop name).sql = none :=
      behind?_sql_eq_none (c := 'C') rfl (of_decide_eq_true rfl)
    have hdrop : behind? "DROP COLUMN " (Alteration.drop name).sql = some (quoteIdent name) :=
      behind?_append "DROP COLUMN " _
    rw [readAlteration?, hadd, hchange, hdrop]
    simp only [Option.bind_eq_bind, Option.bind_some, quotedName?_quoteIdent]
    rfl

theorem clauses_alterTable {naming : TableNaming} {table sql : String} {stored : TableSchema}
    {diff : SchemaDiff} (h : alterTable? naming table stored diff = some sql) :
    (alterationText? sql).map items = some ((alterations stored diff).map (·.sql)) := by
  simp only [alterTable?] at h
  split at h
  · exact nomatch h
  · obtain rfl := Option.some.inj h
    have hbehind : ∀ text, behind? "ALTER TABLE " ("ALTER TABLE " ++ text) = some text :=
      behind?_append "ALTER TABLE "
    have hname : ∀ text : String, leadingName? (naming.quoted table ++ (" " ++ text)).toList =
        some (naming.physical table, ' ' :: text.toList) :=
      leadingName?_quoteIdent_blank (naming.physical table)
    simp only [alterationText?, String.append_assoc, hbehind, hname, Option.bind_eq_bind,
      Option.bind_some, List.drop_one, List.tail_cons, String.ofList_toList, Option.map_some]
    refine congrArg some (items_commaSeparated (fun _ htext => ?_) fun _ htext => ?_)
    · obtain ⟨a, _, rfl⟩ := List.mem_map.mp htext
      exact single_sql a
    · obtain ⟨a, _, rfl⟩ := List.mem_map.mp htext
      exact ⟨a.letter, head?_sql a, letter_ne_blank a⟩

/-! ## Both statements -/

/-- Split at its commas, the text of a statement gives back its clauses, one for each column in
order and one for the index if there is one. Each clause says what its column is. -/
theorem definitions_readBack (naming : TableNaming) (table : String) :
    (∀ schema : TableSchema,
      (inParentheses? (createTable naming table schema)).map items =
        some ((schema.entries.map fun (name, c) => columnClause name c) ++
          indexClause schema.indexedColumns) ∧
      readTable? (createTable naming table schema) = some schema.said) ∧
    ∀ (stored : TableSchema) (diff : SchemaDiff) (sql : String),
      alterTable? naming table stored diff = some sql →
      (alterationText? sql).map items = some ((alterations stored diff).map (·.sql)) ∧
      readAlterations? sql = some ((alterations stored diff).map (·.said)) := by
  refine ⟨fun schema => ?_, fun stored diff sql h => ?_⟩
  · have hclauses := clauses_createTable naming table schema
    refine ⟨hclauses, ?_⟩
    obtain ⟨body, hbody, hitems⟩ := Option.map_eq_some_iff.mp hclauses
    simp only [readTable?, hbody, Option.bind_eq_bind, Option.bind_some, hitems]
    exact mapM_readClause? schema
  · have hclauses := clauses_alterTable h
    refine ⟨hclauses, ?_⟩
    obtain ⟨text, htext, hitems⟩ := Option.map_eq_some_iff.mp hclauses
    simp only [readAlterations?, htext, Option.bind_eq_bind, Option.bind_some, hitems]
    rw [List.mapM_map]
    exact Document.mapM_eq_some_map fun a _ => readAlteration?_sql a

/-- Names and values with quotes, commas, parentheses and backslashes in them. -/
theorem definitions_readBack_hostile :
    let choice : Column :=
      { Column.choice ["a', b)", "\\"] "it's \\" with required := true, index := true }
    let stamp : Column :=
      { kind := .timestamp, unique := true, default := some (.str "current_timestamp") }
    let schema : TableSchema := .ofList [("x\x60, (y", choice), ("", stamp)]
    let stored : TableSchema := .ofList [("z?", .bigint)]
    let diff : SchemaDiff :=
      { added := schema, changed := .ofList [("z?", stamp)], dropped := ["z?"] }
    let choiceText : ColumnText := {
      name := "x\x60, (y", values := some ["a', b)", "\\"], required := true, unique := false,
      primary := false, autoIncrement := false, default := some (.quoted "it's \\") }
    let stampText : String → ColumnText := fun name => {
      name, values := none, required := false, unique := true, primary := false,
      autoIncrement := false, default := some (.bare "CURRENT_TIMESTAMP") }
    readTable? (createTable {} "t" schema) =
        some [.column choiceText, .column (stampText ""), .index ["x\x60, (y"]] ∧
      ∃ sql, alterTable? {} "t" stored diff = some sql ∧ readAlterations? sql =
        some [.add choiceText, .add (stampText ""), .change "z?" (stampText "z?"), .drop "z?"] := by
  intro choice stamp schema stored diff choiceText stampText
  obtain ⟨hcreate, halter⟩ := definitions_readBack {} "t"
  have hschema : schema.said =
      [.column choiceText, .column (stampText ""), .index ["x\x60, (y"]] := by decide
  have hsteps : (alterations stored diff).map (·.said) =
      [.add choiceText, .add (stampText ""), .change "z?" (stampText "z?"), .drop "z?"] := by decide
  refine ⟨hschema ▸ (hcreate schema).2, _, rfl, ?_⟩
  exact hsteps ▸ (halter stored diff _ rfl).2

end ContentTables
