import ContentTables.Proofs.Sql.ColumnText
import ContentTables.Sql.Clause

/-!
# Words of statements

A statement that reads rows is taken apart at its blanks, and what stands behind `WHERE` up to the
next keyword is put together again.

* `intercalate_words` : the words of a text with blanks between them are the text;
* `words_append_blank`, `Follows` : the words of a text that stands in front of a blank or at the
  end, and of what follows it;
* `clauseEnds` : the keywords that end a condition;
* `Phrase` : balanced texts that have no such word;
* `Predicate.phrase_clause?`, `phrase_compile` : the clause of a condition is one.
-/

namespace ContentTables

open Place

/-! ## Taken apart and put together -/

theorem intercalate_splitFrom (sep : Char) (p : Place) (cs : List Char) :
    [sep].intercalate (splitFrom sep p cs) = cs := by
  induction cs generalizing p with
  | nil => exact List.intercalate_singleton
  | cons c cs ih =>
    have hrest := ih (p.step c)
    obtain ⟨part, parts, hparts⟩ := List.exists_cons_of_ne_nil
      (@splitFrom_ne_nil sep (p.step c) cs)
    rw [hparts] at hrest
    rw [splitFrom, hparts]
    split
    · rename_i hsep
      rw [List.intercalate_cons_cons, hrest, hsep.2]
      rfl
    · rw [List.modifyHead_cons]
      cases parts with
      | nil =>
        rw [List.intercalate_singleton] at hrest ⊢
        rw [hrest]
      | cons other parts =>
        rw [List.intercalate_cons_cons] at hrest ⊢
        rw [List.cons_append, List.cons_append, hrest]

theorem intercalate_words (text : String) : " ".intercalate (words text) = text := by
  have hchars : (words text).map String.toList = splitFrom ' ' top text.toList := by
    rw [words, List.map_map]
    exact (List.map_congr_left fun _ _ => String.toList_ofList).trans (List.map_id' _)
  apply String.toList_inj.mp
  rw [String.toList_intercalate, hchars]
  exact intercalate_splitFrom ' ' top text.toList

theorem words_append_blank {text : String} (h : Balanced text.toList) (rest : String) :
    words (text ++ (" " ++ rest)) = words text ++ words rest := by
  have hchars : (text ++ (" " ++ rest)).toList = text.toList ++ ' ' :: rest.toList := by simp
  rw [words, hchars, h.splitFrom_append rfl, List.map_append]
  rfl

/-- Words with blanks between them. -/
theorem words_intercalate_single {texts : List String} (hne : texts ≠ [])
    (h : ∀ t ∈ texts, Single ' ' t.toList) : words (" ".intercalate texts) = texts := by
  have heach : ∀ t ∈ texts, words t = [t] := fun t ht => words_eq_singleton (h t ht)
  rw [words_intercalate hne fun t ht => (h t ht).toBalanced, List.flatMap_congr heach]
  exact List.flatMap_singleton' texts

/-- What may follow a text, with its words: nothing, or something behind a blank. -/
inductive Follows : String → List String → Prop
  | nothing : Follows "" []
  | blank (rest : String) : Follows (" " ++ rest) (words rest)

theorem Follows.words_append (text : String) {rest : String} {ws : List String}
    (h : Follows rest ws) (hbalanced : Balanced text.toList) :
    words (text ++ rest) = words text ++ ws := by
  cases h with
  | nothing => rw [String.append_empty, List.append_nil]
  | blank rest => exact words_append_blank hbalanced rest

/-- A word, and what follows it. -/
theorem Follows.word (word : String) {rest : String} {ws : List String} (h : Follows rest ws)
    (hword : Single ' ' word.toList) : Follows (" " ++ (word ++ rest)) (word :: ws) := by
  have hwords := h.words_append word hword.toBalanced
  rw [words_eq_singleton hword] at hwords
  have hfollows := Follows.blank (word ++ rest)
  rwa [hwords] at hfollows

theorem Follows.append (text : String) {rest : String} {ws : List String} (h : Follows rest ws)
    (hbalanced : Balanced text.toList) : Follows (" " ++ (text ++ rest)) (words text ++ ws) := by
  rw [← h.words_append text hbalanced]
  exact .blank (text ++ rest)

/-! ## Lists -/

/-- The words of a list are its members, with or without a comma behind them. -/
theorem mem_words_commaSeparated {texts : List String} (h : ∀ t ∈ texts, Single ' ' t.toList)
    {w : String} (hw : w ∈ words (commaSeparated texts)) :
    w = "" ∨ ∃ t ∈ texts, w = t ∨ w = t ++ "," := by
  induction texts with
  | nil => exact Or.inl (List.mem_singleton.mp hw)
  | cons text texts ih =>
    obtain ⟨htext, htexts⟩ := List.forall_mem_cons.mp h
    cases texts with
    | nil =>
      rw [commaSeparated, String.intercalate_singleton, words_eq_singleton htext] at hw
      exact Or.inr ⟨text, List.mem_cons_self, Or.inl (List.mem_singleton.mp hw)⟩
    | cons other texts =>
      have hcomma : Single ' ' (text ++ ",").toList := htext.append_text (.plain (by decide))
      have hsplit : commaSeparated (text :: other :: texts) =
          (text ++ ",") ++ (" " ++ commaSeparated (other :: texts)) := by
        have hblank : ", " = "," ++ " " := by decide
        rw [commaSeparated, String.intercalate_cons_cons, hblank]
        simp only [String.append_assoc]
        rfl
      rw [hsplit, words_append_blank hcomma.toBalanced, words_eq_singleton hcomma] at hw
      rcases List.mem_cons.mp hw with rfl | hw
      · exact Or.inr ⟨text, List.mem_cons_self, Or.inr rfl⟩
      · refine (ih htexts hw).imp_right ?_
        rintro ⟨t, ht, hword⟩
        exact ⟨t, List.mem_cons_of_mem _ ht, hword⟩

/-! ## Conditions -/

/-- The keywords of what may follow a condition. -/
def clauseEnds : List String := ["GROUP", "ORDER", "LIMIT"]

structure Phrase (text : String) : Prop where
  balanced : Balanced text.toList
  unended : ∀ w ∈ words text, w ∉ clauseEnds

namespace Phrase

variable {a b : String}

theorem append_blank (ha : Phrase a) (hb : Phrase b) : Phrase (a ++ (" " ++ b)) where
  balanced := by
    rw [String.toList_append, String.toList_append]
    exact ha.balanced.append (.append (.plain (by decide)) hb.balanced)
  unended := by
    rw [words_append_blank ha.balanced]
    exact List.forall_mem_append.mpr ⟨ha.unended, hb.unended⟩

theorem of_single (h : Single ' ' a.toList) (hend : a ∉ clauseEnds) : Phrase a where
  balanced := h.toBalanced
  unended := by
    rw [words_eq_singleton h]
    exact List.forall_mem_singleton.mpr hend

theorem ne_of_head? (c : Char) (hhead : a.toList.head? = some c) (hc : c ∉ ['G', 'O', 'L']) :
    a ∉ clauseEnds := by
  intro hmem
  simp only [clauseEnds, List.mem_cons, List.not_mem_nil, or_false] at hmem
  rcases hmem with rfl | rfl | rfl
  all_goals
    obtain rfl := Option.some.inj hhead
    exact hc (by decide)

theorem parenthesized (h : Balanced a.toList) : Phrase (Predicate.parenthesized a) := by
  have hchars : (Predicate.parenthesized a).toList = '(' :: (a.toList ++ [')']) := by
    simp [Predicate.parenthesized]
  refine of_single (hchars ▸ Single.parenthesized (by decide) h) (ne_of_head? '(' ?_ ?_)
  · rw [hchars]
    rfl
  · decide

/-- Phrases with a word between them. -/
theorem intercalate {word : String} (hword : Phrase word) {text : String} {texts : List String}
    (h : ∀ t ∈ text :: texts, Phrase t) :
    Phrase ((" " ++ word ++ " ").intercalate (text :: texts)) := by
  induction texts generalizing text with
  | nil => rw [String.intercalate_singleton]; exact h text List.mem_cons_self
  | cons other texts ih =>
    obtain ⟨htext, htexts⟩ := List.forall_mem_cons.mp h
    have hrest := htext.append_blank (hword.append_blank (ih htexts))
    rw [String.intercalate_cons_cons]
    simpa only [String.append_assoc] using hrest

end Phrase

theorem single_qualified {sep : Char} (hsep : sep ∈ separators) (table : Option String)
    (column : String) : Single sep (qualified table column).toList := by
  cases table with
  | none => exact single_quoteIdent sep column
  | some t =>
    have hdot : Single sep ".".toList := single_word hsep (by decide)
    exact ((single_quoteIdent sep t).append_text hdot).append_text (single_quoteIdent sep column)

theorem head?_qualified (table : Option String) (column : String) :
    (qualified table column).toList.head? = some backtick := by
  cases table with
  | none => exact head?_quoteIdent column
  | some t => exact head?_append (head?_append (head?_quoteIdent t) _) _

namespace Predicate

theorem balanced_intercalate {separator : String} (hseparator : separator.toList.all isPlain = true)
    {texts : List String} (h : ∀ t ∈ texts, Phrase t) :
    Balanced (separator.intercalate texts).toList :=
  of_intercalate .nil .append (.plain hseparator) fun t ht => (h t ht).balanced

theorem phrase_placeholder (operator : Operator) : Phrase operator.placeholder := by
  have hlist : ∀ word : String, word.toList.all isPlain = true →
      Balanced (word ++ ("(" ++ ("?" ++ ")"))).toList := by
    intro word hword
    have hmark : Balanced "?".toList := .plain (by decide)
    have hchars : (word ++ ("(" ++ ("?" ++ ")"))).toList =
        word.toList ++ '(' :: ("?".toList ++ [')']) := by simp
    rw [hchars]
    exact (Balanced.plain hword).append hmark.parenthesized
  cases operator with
  | isIn => exact ⟨hlist "IN " (by decide), by decide⟩
  | notIn => exact ⟨hlist "NOT IN " (by decide), by decide⟩
  | _ => exact ⟨.plain (by decide), by decide⟩

mutual

/-- What joins several parts encloses them, so no word of theirs is a word of the clause. -/
theorem phrase_clause? (table : Option String) :
    ∀ {p : Predicate} {sql : String}, p.clause? table = some sql → Phrase sql
  | .field column operator _, sql, h => by
    cases h
    have hcolumn : Phrase (qualified table column) :=
      .of_single (single_qualified (by decide) table column)
        (Phrase.ne_of_head? backtick (head?_qualified table column) (by decide))
    rw [String.append_assoc]
    exact hcolumn.append_blank (phrase_placeholder operator)
  | .group parts, sql, h => by
    have hparts := phrases_clauses table parts
    rw [clause?] at h
    generalize clauses table parts = texts at hparts h
    match texts with
    | [] => cases h
    | [text] =>
      obtain rfl := Option.some.inj h
      exact hparts text List.mem_cons_self
    | _ :: _ :: _ =>
      cases h
      exact .parenthesized (balanced_intercalate (by decide) hparts)
  | .all parts, sql, h => by
    have hparts := phrases_clauses table parts
    rw [clause?, joined] at h
    split at h
    · cases h
    · cases h
      exact .parenthesized (balanced_intercalate (by decide) hparts)
  | .any parts, sql, h => by
    have hparts := phrases_clauses table parts
    rw [clause?, joined] at h
    split at h
    · cases h
    · cases h
      exact .parenthesized (balanced_intercalate (by decide) hparts)

theorem phrases_clauses (table : Option String) :
    ∀ ps : List Predicate, ∀ t ∈ clauses table ps, Phrase t
  | [], t, h => absurd h List.not_mem_nil
  | p :: ps, t, h => by
    rcases List.mem_append.mp h with h | h
    · exact phrase_clause? table (Option.mem_toList.mp h)
    · exact phrases_clauses table ps t h

end

end Predicate

/-- Phrases joined by `AND` are one. -/
theorem Phrase.conjunction {text : String} {texts : List String}
    (h : ∀ t ∈ text :: texts, Phrase t) : Phrase (" AND ".intercalate (text :: texts)) := by
  have hword : Phrase "AND" := ⟨.plain (by decide), by decide⟩
  have hseparator : " AND " = " " ++ "AND" ++ " " := by decide
  rw [hseparator]
  exact hword.intercalate h

theorem Condition.phrase_compile (c : Condition) (table : Option String)
    (h : (c.compile table).isEmpty = false) : Phrase (c.compile table).sql := by
  have hparts := Predicate.phrases_clauses table c.predicates
  unfold compile Clause.isEmpty at h
  unfold compile
  cases htexts : Predicate.clauses table c.predicates with
  | nil =>
    rw [htexts] at h
    cases h
  | cons text texts => exact .conjunction (htexts ▸ hparts)

end ContentTables
