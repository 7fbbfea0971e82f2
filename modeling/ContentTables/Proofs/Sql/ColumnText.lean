import ContentTables.Proofs.Json.TextInjective
import ContentTables.Proofs.Schema.Altering
import ContentTables.Proofs.Schema.ReadBack
import ContentTables.Proofs.Sql.Splitting

/-!
# What the clause of a column says

A clause is read back word by word, whatever its name, its values and its default are.

* `quotedName?`, `literal?` : the text in a quoted name and in a literal;
* `ColumnText`, `Column.said` : what a clause says, and what that of a column is to say;
* `readColumn?` : the reader, which splits the clause at its blanks;
* `Single`, for each part of a clause : a comma, a blank or a parenthesis in it is in quotes or in
  parentheses (`single_storage`, `single_text`, `single_columnClause`);
* `words_columnClause`, `readColumn?_columnClause` : the words of a clause, and what is read of it.
-/

namespace ContentTables

open Definition Place

/-! ## Quoted texts -/

def quotedName? (text : String) : Option String :=
  match leadingName? text.toList with
  | some (name, []) => some name
  | _ => none

theorem quotedName?_quoteIdent (name : String) : quotedName? (quoteIdent name) = some name := by
  have hname := leadingName?_quoteIdent name [] nofun
  rw [List.append_nil] at hname
  rw [quotedName?, hname]

/-- The characters of a literal up to its closing quote, and what follows the quote. A backslash
takes the next character as it is. -/
def literalBody? : List Char → Option (List Char × List Char)
  | '\\' :: c :: cs => (literalBody? cs).map fun (text, rest) => (c :: text, rest)
  | '\'' :: '\'' :: cs => (literalBody? cs).map fun (text, rest) => ('\'' :: text, rest)
  | '\'' :: cs => some ([], cs)
  | c :: cs => (literalBody? cs).map fun (text, rest) => (c :: text, rest)
  | [] => none

def literal? (text : String) : Option String :=
  match text.toList with
  | '\'' :: cs =>
    match literalBody? cs with
    | some (text, []) => some (String.ofList text)
    | _ => none
  | _ => none

theorem literalBody?_doubled (text : List Char) :
    let body := text.flatMap fun c => if c == '\'' || c == '\\' then [c, c] else [c]
    literalBody? (body ++ ['\'']) = some (text, []) := by
  intro body
  induction text with
  | nil => rfl
  | cons c cs ih =>
    have hbody : body = _ := List.flatMap_cons
    rw [hbody, List.append_assoc]
    by_cases hdoubled : c = '\'' ∨ c = '\\'
    · have htwo : (if (c == '\'' || c == '\\') = true then [c, c] else [c]) = [c, c] := by
        simp [hdoubled]
      rw [htwo, List.cons_append, List.singleton_append]
      rcases hdoubled with rfl | rfl
      · rw [literalBody?, ih]
        rfl
      · rw [literalBody?, ih]
        rfl
    · have hone : (if (c == '\'' || c == '\\') = true then [c, c] else [c]) = [c] := by
        simp [hdoubled]
      obtain ⟨hquote, hslash⟩ := not_or.mp hdoubled
      rw [hone, List.singleton_append, literalBody?.eq_4 _ _ (fun _ _ h _ => hslash h)
        (fun _ h _ => hquote h) hquote, ih]
      rfl

theorem literal?_quoteLiteral (text : String) : literal? (quoteLiteral text) = some text := by
  have hbody := literalBody?_doubled text.toList
  rw [literal?, quoteLiteral, String.toList_ofList, quotedBy, List.cons_append]
  simp only [hbody, String.ofList_toList]

/-- A text without quotes is no literal. -/
theorem literal?_plain {text : String} (h : text.toList.all isPlain = true) :
    literal? text = none := by
  unfold literal?
  split
  · rename_i cs hchars
    have hquote := List.all_eq_true.mp h '\'' (hchars ▸ List.mem_cons_self)
    exact nomatch hquote
  · rfl

/-! ## What a clause says -/

/-- A default as a bare word, or as the text of a literal. -/
inductive DefaultText where
  | bare (word : String)
  | quoted (text : String)
deriving DecidableEq

namespace DefaultText

def text : DefaultText → String
  | .bare word => word
  | .quoted text => quoteLiteral text

end DefaultText

structure ColumnText where
  name : String
  /-- The values of an enum column. -/
  values : Option (List String)
  required : Bool
  unique : Bool
  primary : Bool
  autoIncrement : Bool
  default : Option DefaultText
deriving DecidableEq

/-- The default that a column is to get. -/
def Column.saidDefault (c : Column) : Option DefaultText :=
  if c.kind = .bool then some (.bare (boolDefault c.default))
  else c.default.bind fun
    | .null => none
    | .str s =>
      some (if sameIgnoringCase s Definition.currentTimestamp then
        .bare Definition.currentTimestamp else .quoted s)
    | .bool b => some (.quoted (if b then "1" else "0"))
    | v => some (.quoted v.text)

def Column.said (name : String) (c : Column) : ColumnText where
  name := name
  values := if c.kind = .enum then some c.values else none
  required := c.required
  unique := c.unique
  primary := c.primary
  autoIncrement := c.autoIncrement
  default := c.saidDefault

/-! ## Reading a clause -/

def readDefault (word : String) : DefaultText := (literal? word).elim (.bare word) .quoted

/-- What follows a text at the front of another. -/
def behind? (front text : String) : Option String :=
  (front.toList.isPrefixOf? text.toList).map String.ofList

/-- The texts of the literals of an enum; other storage has none. -/
def readValues? (storage : String) : Option (List String) := do
  let _ ← behind? "ENUM" storage
  (items (← inParentheses? storage)).mapM literal?

/-- Whether a keyword stands next, and the words behind it. -/
def takeKeyword (keyword ws : List String) : Bool × List String :=
  match keyword.isPrefixOf? ws with
  | some rest => (true, rest)
  | none => (false, ws)

def readColumn? (clause : String) : Option ColumnText :=
  match words clause with
  | name :: storage :: ws => do
    let name ← quotedName? name
    let (required, ws) := takeKeyword ["NOT", "NULL"] ws
    let (unique, ws) := takeKeyword ["UNIQUE"] ws
    let (primary, ws) := takeKeyword ["PRIMARY", "KEY"] ws
    let (autoIncrement, ws) := takeKeyword ["AUTO_INCREMENT"] ws
    let default ← match ws with
      | [] => some none
      | ["DEFAULT", word] => some (some (readDefault word))
      | _ => none
    some { name, values := readValues? storage, required, unique, primary, autoIncrement, default }
  | _ => none

/-! ## Parts of a clause -/

section Parts
variable {sep : Char}

/-- The characters at which a definition is split or cut. -/
def separators : List Char := [',', ' ', ')']

def isWordChar (c : Char) : Bool := isPlain c && !separators.contains c

theorem isWordChar_of_numberChar {c : Char} (h : Json.numberChar c = true) :
    isWordChar c = true := by
  have hother : ∀ d, Json.numberChar d = false → c ≠ d := by
    rintro d hd rfl
    exact nomatch h.symm.trans hd
  simp [isWordChar, isPlain, isQuote, backtick, separators, hother '\'' rfl, hother '"' rfl,
    hother '\x60' rfl, hother '(' rfl, hother ')' rfl, hother ',' rfl, hother ' ' rfl]

theorem all_isPlain_word {cs : List Char} (h : cs.all isWordChar = true) :
    cs.all isPlain = true :=
  List.all_eq_true.mpr fun c hc => (Bool.and_eq_true_iff.mp (List.all_eq_true.mp h c hc)).1

theorem single_word (hsep : sep ∈ separators) {cs : List Char} (h : cs.all isWordChar = true) :
    Single sep cs := by
  refine .plain (List.all_eq_true.mpr fun c hc => ?_)
  have hword := List.all_eq_true.mp h c hc
  simp only [isWordChar, Bool.and_eq_true, Bool.not_eq_true', List.contains_eq_mem,
    decide_eq_false_iff_not] at hword
  have hne : c ≠ sep := by
    rintro rfl
    exact hword.2 hsep
  exact Bool.and_eq_true_iff.mpr ⟨hword.1, bne_iff_ne.mpr hne⟩

/-- What a statement is split at between its clauses, or cut at behind them. -/
theorem mem_separators (hsep : sep = ',' ∨ sep = ')') : sep ∈ separators := by
  rcases hsep with rfl | rfl
  · decide
  · decide

/-- A keyword may have blanks in it. -/
theorem single_phrase (hsep : sep = ',' ∨ sep = ')') {text : String}
    (h : text.toList.all (isPlainBut ',') = true) : Single sep text.toList := by
  rcases hsep with rfl | rfl
  · exact .plain h
  · refine .plain (List.all_eq_true.mpr fun c hc => ?_)
    have hplain := (Bool.and_eq_true_iff.mp (List.all_eq_true.mp h c hc)).1
    have hne : c ≠ ')' := by
      rintro rfl
      exact nomatch hplain
    exact Bool.and_eq_true_iff.mpr ⟨hplain, bne_iff_ne.mpr hne⟩

theorem all_isWordChar_number (n : Number) : n.text.toList.all isWordChar = true := by
  rw [Number.text, String.toList_ofList]
  exact List.all_eq_true.mpr fun c hc => isWordChar_of_numberChar (Json.numberChar_of_mem_chars hc)

theorem single_parenthesized (hsep : sep ∈ separators) {word inner : String}
    (hword : Single sep word.toList) (hinner : Balanced inner.toList) :
    Single sep (word ++ "(" ++ inner ++ ")").toList := by
  have hchars : (word ++ "(" ++ inner ++ ")").toList =
      word.toList ++ ('(' :: (inner.toList ++ [')'])) := by simp
  have hne : sep ≠ '(' := by
    rintro rfl
    exact absurd hsep (by decide)
  rw [hchars]
  exact hword.append (.parenthesized hne hinner)

theorem single_sized (hsep : sep ∈ separators) {word : String} (hword : Single sep word.toList)
    (length : UInt32) : Single sep (sized word length).toList := by
  have hdigits : (toString length.toNat).toList = Nat.toDigits 10 length.toNat := Nat.toList_repr
  have hnumber : (toString length.toNat).toList.all isWordChar = true := by
    rw [hdigits]
    exact List.all_eq_true.mpr fun c hc =>
      isWordChar_of_numberChar (Json.numberChar_of_mem_toDigits hc)
  exact single_parenthesized hsep hword (.plain (all_isPlain_word hnumber))

theorem single_list {quote : String → String} (h : ∀ text, Single ')' (quote text).toList)
    (texts : List String) : Single ')' (commaSeparated (texts.map quote)).toList := by
  refine of_intercalate (.plain (by decide)) .append (.plain (by decide)) fun text htext => ?_
  obtain ⟨text, _, rfl⟩ := List.mem_map.mp htext
  exact h text

theorem single_storage (hsep : sep ∈ separators) (c : Column) : Single sep (storage c).toList := by
  have hword : ∀ word : String, word.toList.all isWordChar = true → Single sep word.toList :=
    fun _ h => single_word hsep h
  unfold storage
  cases c.kind with
  | int =>
    simp only
    split
    · exact single_sized hsep (hword "BIGINT" (by decide)) _
    · exact single_sized hsep (hword "INT" (by decide)) _
  | bigint => exact single_sized hsep (hword "BIGINT" (by decide)) _
  | string =>
    simp only
    split
    · exact hword "LONGTEXT" (by decide)
    · exact single_sized hsep (hword "VARCHAR" (by decide)) _
  | object | array => exact hword "LONGTEXT" (by decide)
  | enum =>
    have hopened : "ENUM(" = "ENUM" ++ "(" := by decide
    simp only [hopened]
    exact single_parenthesized hsep (hword "ENUM" (by decide))
      (single_list (single_quoteLiteral ')') c.values).toBalanced
  | bool =>
    have hopened : "SMALLINT(1)" = "SMALLINT" ++ "(" ++ "1" ++ ")" := by decide
    simp only [hopened]
    exact single_parenthesized hsep (hword "SMALLINT" (by decide)) (.plain (by decide))
  | timestamp => exact hword "TIMESTAMP" (by decide)

end Parts

/-! ## Defaults -/

theorem default?_eq (c : Column) : default? c = c.saidDefault.map DefaultText.text := by
  unfold default? Column.saidDefault
  split
  · rfl
  · cases c.default with
    | none => rfl
    | some v =>
      cases v with
      | str s =>
        show some (if _ then _ else _) = some (DefaultText.text (if _ then _ else _))
        split
        · rfl
        · rfl
      | _ => rfl

namespace DefaultText

/-- A bare word has nothing in it that a reader could take for more than one word. -/
def Plain : DefaultText → Prop
  | .bare word => word.toList.all isWordChar = true
  | .quoted _ => True

theorem plain_boolDefault (default : Option Json) : Plain (.bare (boolDefault default)) := by
  have hone : "1".toList.all isWordChar = true := by decide
  have hzero : "0".toList.all isWordChar = true := by decide
  show (boolDefault default).toList.all isWordChar = true
  unfold boolDefault
  split
  · exact hone
  · exact all_isWordChar_number _
  · split
    · exact hone
    · exact hzero
  · exact hzero

theorem plain_saidDefault {c : Column} {d : DefaultText} (h : c.saidDefault = some d) :
    d.Plain := by
  unfold Column.saidDefault at h
  split at h
  · cases h
    exact plain_boolDefault c.default
  · obtain ⟨v, _, hv⟩ := Option.bind_eq_some_iff.mp h
    split at hv
    · exact nomatch hv
    · cases hv
      split
      · show currentTimestamp.toList.all isWordChar = true
        decide
      · trivial
    · cases hv
      trivial
    · cases hv
      trivial

theorem single_text {sep : Char} (hsep : sep ∈ separators) {d : DefaultText} (h : d.Plain) :
    Single sep d.text.toList := by
  cases d with
  | bare word => exact single_word hsep h
  | quoted text => exact single_quoteLiteral sep text

theorem readDefault_text {d : DefaultText} (h : d.Plain) : readDefault d.text = d := by
  cases d with
  | bare word =>
    have hplain : literal? word = none := literal?_plain (all_isPlain_word h)
    rw [text, readDefault, hplain]
    rfl
  | quoted t =>
    rw [text, readDefault, literal?_quoteLiteral]
    rfl

end DefaultText

/-! ## The clause of a column -/

/-- What follows the storage of a column. -/
def modifiers (c : Column) : List String :=
  (if c.required then ["NOT NULL"] else []) ++ (if c.unique then ["UNIQUE"] else []) ++
    (if c.primary then ["PRIMARY KEY"] else []) ++
    (if c.autoIncrement then ["AUTO_INCREMENT"] else []) ++
    (c.saidDefault.map fun d => "DEFAULT " ++ d.text).toList

def defaultWords (c : Column) : List String :=
  c.saidDefault.elim [] fun d => ["DEFAULT", d.text]

/-- The same, word by word. -/
def modifierWords (c : Column) : List String :=
  (if c.required then ["NOT", "NULL"] else []) ++ ((if c.unique then ["UNIQUE"] else []) ++
    ((if c.primary then ["PRIMARY", "KEY"] else []) ++
    ((if c.autoIncrement then ["AUTO_INCREMENT"] else []) ++ defaultWords c)))

theorem columnClause_eq (name : String) (c : Column) :
    columnClause name c = " ".intercalate (quoteIdent name :: storage c :: modifiers c) := by
  rw [columnClause, default?_eq, Option.map_map]
  simp only [modifiers, List.cons_append, List.nil_append]
  rfl

theorem single_modifier {sep : Char} (hsep : sep = ',' ∨ sep = ')') {c : Column} {text : String}
    (h : text ∈ modifiers c) : Single sep text.toList := by
  have hflag : ∀ {on : Bool} {word : String}, text ∈ (if on then [word] else []) → text = word := by
    intro on word hmem
    split at hmem
    · exact List.mem_singleton.mp hmem
    · exact absurd hmem List.not_mem_nil
  have hphrase : ∀ phrase : String, phrase.toList.all (isPlainBut ',') = true →
      Single sep phrase.toList := fun _ h => single_phrase hsep h
  simp only [modifiers, List.mem_append, Option.mem_toList, Option.map_eq_some_iff] at h
  obtain (((h | h) | h) | h) | ⟨d, hd, rfl⟩ := h
  · exact hflag h ▸ hphrase "NOT NULL" (by decide)
  · exact hflag h ▸ hphrase "UNIQUE" (by decide)
  · exact hflag h ▸ hphrase "PRIMARY KEY" (by decide)
  · exact hflag h ▸ hphrase "AUTO_INCREMENT" (by decide)
  · exact (hphrase "DEFAULT " (by decide)).append_text
      (DefaultText.single_text (mem_separators hsep) (DefaultText.plain_saidDefault hd))

theorem words_eq_singleton {text : String} (h : Single ' ' text.toList) : words text = [text] := by
  rw [words, splitFrom_eq_singleton rfl h.unsplit, List.map_singleton, String.ofList_toList]

theorem words_default {d : DefaultText} (h : d.Plain) :
    words ("DEFAULT " ++ d.text) = ["DEFAULT", d.text] := by
  have hchars : ("DEFAULT " ++ d.text).toList = "DEFAULT".toList ++ ' ' :: d.text.toList := by
    rw [String.toList_append]
    rfl
  have hword : Balanced "DEFAULT".toList := .plain (by decide)
  have htext : Single ' ' d.text.toList := DefaultText.single_text (by decide) h
  rw [words, hchars, hword.splitFrom_append rfl, splitFrom_eq_singleton rfl htext.unsplit,
    List.map_append, List.map_singleton, String.ofList_toList]
  rfl

theorem words_modifiers (c : Column) : (modifiers c).flatMap words = modifierWords c := by
  have hflag : ∀ (on : Bool) {text : String} {ws : List String}, words text = ws →
      (if on then [text] else []).flatMap words = if on then ws else [] := by
    rintro on text ws rfl
    cases on
    · rfl
    · exact List.append_nil _
  have hnull : words "NOT NULL" = ["NOT", "NULL"] := by decide
  have hunique : words "UNIQUE" = ["UNIQUE"] := by decide
  have hkey : words "PRIMARY KEY" = ["PRIMARY", "KEY"] := by decide
  have hgenerated : words "AUTO_INCREMENT" = ["AUTO_INCREMENT"] := by decide
  have hdefault : (c.saidDefault.map fun d => "DEFAULT " ++ d.text).toList.flatMap words =
      defaultWords c := by
    unfold defaultWords
    cases hd : c.saidDefault with
    | none => rfl
    | some d =>
      exact (List.append_nil _).trans (words_default (DefaultText.plain_saidDefault hd))
  simp only [modifiers, List.flatMap_append, hflag _ hnull, hflag _ hunique, hflag _ hkey,
    hflag _ hgenerated, hdefault, List.append_assoc, modifierWords]

theorem words_columnClause (name : String) (c : Column) :
    words (columnClause name c) = quoteIdent name :: storage c :: modifierWords c := by
  have hname : Single ' ' (quoteIdent name).toList := single_quoteIdent ' ' name
  have hstorage : Single ' ' (storage c).toList := single_storage (by decide) c
  have hbalanced : ∀ text ∈ quoteIdent name :: storage c :: modifiers c, Balanced text.toList := by
    rw [List.forall_mem_cons, List.forall_mem_cons]
    exact ⟨hname.toBalanced, hstorage.toBalanced, fun text htext =>
      (single_modifier (.inl rfl) htext).toBalanced⟩
  rw [columnClause_eq, words_intercalate (List.cons_ne_nil _ _) hbalanced, List.flatMap_cons,
    List.flatMap_cons, words_eq_singleton hname, words_eq_singleton hstorage, words_modifiers]
  rfl

/-! ## Keywords -/

theorem takeKeyword_append {key : String} {keyword ws : List String} (on : Bool)
    (h : ws.head? ≠ some key) :
    takeKeyword (key :: keyword) ((if on then key :: keyword else []) ++ ws) = (on, ws) := by
  unfold takeKeyword
  cases on with
  | true =>
    have hfront : (key :: keyword).isPrefixOf? ((key :: keyword) ++ ws) = some ws :=
      List.isPrefixOf?_eq_some_iff_append_eq.mpr rfl
    rw [if_pos rfl, hfront]
  | false =>
    have hother : (key :: keyword).isPrefixOf? ws = none := by
      cases ws with
      | nil => rfl
      | cons w ws =>
        have hne : (key == w) = false := beq_eq_false_iff_ne.mpr fun heq => h (heq ▸ rfl)
        rw [List.isPrefixOf?, hne]
        rfl
    rw [if_neg nofun, List.nil_append, hother]

/-- What comes next is the keyword or what would come without it. -/
theorem head?_keyword_append {key word : String} {keyword ws : List String} (on : Bool)
    (hne : word ≠ key) (h : ws.head? ≠ some key) :
    ((if on then word :: keyword else []) ++ ws).head? ≠ some key := by
  cases on with
  | true => exact fun heq => hne (Option.some.inj heq)
  | false => exact h

/-! ## Storage and values -/

theorem behind?_append (front text : String) : behind? front (front ++ text) = some text := by
  rw [behind?, String.toList_append, isPrefixOf?_append, Option.map_some, String.ofList_toList]

/-- The first character is another one. -/
theorem behind?_eq_none {front text : String} {c : Char} (hfront : front.toList.head? = some c)
    (h : text.toList.head? ≠ some c) : behind? front text = none := by
  unfold behind?
  obtain ⟨cs, hcs⟩ := List.head?_eq_some_iff.mp hfront
  rw [hcs]
  cases hchars : text.toList with
  | nil => rfl
  | cons d ds =>
    have hne : (c == d) = false := beq_eq_false_iff_ne.mpr fun heq => h (by rw [hchars, heq]; rfl)
    rw [List.isPrefixOf?, hne]
    rfl

theorem head?_append {front : String} {c : Char} (h : front.toList.head? = some c) (text : String) :
    (front ++ text).toList.head? = some c := by
  rw [String.toList_append, List.head?_append, h]
  rfl

theorem head?_sized {word : String} {c : Char} (h : word.toList.head? = some c) (length : UInt32) :
    (sized word length).toList.head? = some c :=
  head?_append (head?_append (head?_append h _) _) _

theorem head?_quoteIdent (name : String) : (quoteIdent name).toList.head? = some backtick := by
  rw [quoteIdent, String.toList_ofList]
  rfl

theorem head?_quoteLiteral (text : String) : (quoteLiteral text).toList.head? = some '\'' := by
  rw [quoteLiteral, String.toList_ofList]
  rfl

/-- A list of names or of literals is read text by text. -/
theorem mapM_items_quoted {quote : String → String} {read? : String → Option String}
    (hsingle : ∀ text, Single ',' (quote text).toList)
    (hstart : ∀ text, ∃ c ∈ (quote text).toList.head?, c ≠ ' ')
    (hread : ∀ text, read? (quote text) = some text) (texts : List String) :
    (items (commaSeparated (texts.map quote))).mapM read? = some texts := by
  have hitems : items (commaSeparated (texts.map quote)) = texts.map quote := by
    refine items_commaSeparated (fun text htext => ?_) fun text htext => ?_
    · obtain ⟨text, _, rfl⟩ := List.mem_map.mp htext
      exact hsingle text
    · obtain ⟨text, _, rfl⟩ := List.mem_map.mp htext
      exact hstart text
  rw [hitems, List.mapM_map]
  exact (Document.mapM_eq_some_map fun text _ => hread text).trans
    (congrArg some (List.map_id' texts))

theorem mapM_items_literals (texts : List String) :
    (items (commaSeparated (texts.map quoteLiteral))).mapM literal? = some texts :=
  mapM_items_quoted (single_quoteLiteral ',')
    (fun text => ⟨'\'', head?_quoteLiteral text, by decide⟩) literal?_quoteLiteral texts

theorem mapM_items_names (names : List String) :
    (items (commaSeparated (names.map quoteIdent))).mapM quotedName? = some names :=
  mapM_items_quoted (single_quoteIdent ',')
    (fun name => ⟨backtick, head?_quoteIdent name, by decide⟩) quotedName?_quoteIdent names

theorem readValues?_eq_none (storage : String) {c : Char} (h : storage.toList.head? = some c)
    (hc : c ≠ 'E') : readValues? storage = none := by
  have hother : storage.toList.head? ≠ some 'E' := by
    rw [h]
    exact fun heq => hc (Option.some.inj heq)
  rw [readValues?, behind?_eq_none rfl hother]
  rfl

theorem readValues?_storage (c : Column) :
    readValues? (storage c) = if c.kind = .enum then some c.values else none := by
  have hsized : ∀ (word : String) {d : Char} (length : UInt32), word.toList.head? = some d →
      d ≠ 'E' → readValues? (sized word length) = none :=
    fun word _ length h hd => readValues?_eq_none _ (head?_sized h length) hd
  unfold storage
  cases c.kind with
  | int =>
    simp only
    split
    · exact hsized "BIGINT" _ rfl (by decide)
    · exact hsized "INT" _ rfl (by decide)
  | bigint => exact hsized "BIGINT" _ rfl (by decide)
  | string =>
    simp only
    split
    · exact readValues?_eq_none "LONGTEXT" rfl (by decide)
    · exact hsized "VARCHAR" _ rfl (by decide)
  | object | array => exact readValues?_eq_none "LONGTEXT" rfl (by decide)
  | enum =>
    have hopened : "ENUM(" = "ENUM" ++ "(" := by decide
    have hinner : Single ')' (commaSeparated (c.values.map quoteLiteral)).toList :=
      single_list (single_quoteLiteral ')') c.values
    have hword : Single '(' "ENUM".toList := .plain (by decide)
    have hlist := inParentheses?_append hword hinner ""
    rw [String.append_empty] at hlist
    have henum : ∀ text, behind? "ENUM" ("ENUM" ++ text) = some text := behind?_append "ENUM"
    simp only [hopened, readValues?, hlist, Option.bind_eq_bind, Option.bind_some]
    rw [String.append_assoc, String.append_assoc, henum, mapM_items_literals]
    rfl
  | bool => exact readValues?_eq_none "SMALLINT(1)" rfl (by decide)
  | timestamp => exact readValues?_eq_none "TIMESTAMP" rfl (by decide)

/-! ## Reading a column back -/

/-- No keyword is taken for another one, nor is the default. -/
theorem takeKeyword_modifierWords (c : Column) : ∃ ws₁ ws₂ ws₃,
    takeKeyword ["NOT", "NULL"] (modifierWords c) = (c.required, ws₁) ∧
      takeKeyword ["UNIQUE"] ws₁ = (c.unique, ws₂) ∧
      takeKeyword ["PRIMARY", "KEY"] ws₂ = (c.primary, ws₃) ∧
      takeKeyword ["AUTO_INCREMENT"] ws₃ = (c.autoIncrement, defaultWords c) := by
  have hdefault : ∀ key, "DEFAULT" ≠ key → (defaultWords c).head? ≠ some key := by
    intro key hne
    unfold defaultWords
    cases c.saidDefault with
    | none => exact nofun
    | some d => exact fun heq => hne (Option.some.inj heq)
  refine ⟨_, _, _, takeKeyword_append _ ?_, takeKeyword_append _ ?_, takeKeyword_append _ ?_,
    takeKeyword_append _ (hdefault _ (by decide))⟩
  · exact head?_keyword_append _ (by decide) (head?_keyword_append _ (by decide)
      (head?_keyword_append _ (by decide) (hdefault _ (by decide))))
  · exact head?_keyword_append _ (by decide)
      (head?_keyword_append _ (by decide) (hdefault _ (by decide)))
  · exact head?_keyword_append _ (by decide) (hdefault _ (by decide))

theorem readColumn?_columnClause (name : String) (c : Column) :
    readColumn? (columnClause name c) = some (c.said name) := by
  obtain ⟨ws₁, ws₂, ws₃, hrequired, hunique, hprimary, hgenerated⟩ := takeKeyword_modifierWords c
  rw [readColumn?, words_columnClause]
  simp only [quotedName?_quoteIdent, readValues?_storage, Option.bind_eq_bind, Option.bind_some,
    hrequired, hunique, hprimary, hgenerated, Column.said, defaultWords]
  cases hd : c.saidDefault with
  | none => rfl
  | some d =>
    have hread : readDefault d.text = d :=
      DefaultText.readDefault_text (DefaultText.plain_saidDefault hd)
    simp only [Option.elim_some, hread]

theorem single_columnClause {sep : Char} (hsep : sep = ',' ∨ sep = ')') (name : String)
    (c : Column) : Single sep (columnClause name c).toList := by
  have hblank : Single sep " ".toList := single_phrase hsep (by decide)
  rw [columnClause_eq]
  refine of_intercalate (.plain rfl) .append hblank ?_
  rw [List.forall_mem_cons, List.forall_mem_cons]
  exact ⟨single_quoteIdent sep name, single_storage (mem_separators hsep) c,
    fun _ => single_modifier hsep⟩

theorem head?_columnClause (name : String) (c : Column) :
    (columnClause name c).toList.head? = some backtick := by
  rw [columnClause_eq, String.intercalate_cons_cons]
  exact head?_append (head?_append (head?_quoteIdent name) _) _

end ContentTables
