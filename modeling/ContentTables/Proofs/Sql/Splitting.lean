import ContentTables.Proofs.Sql.Pieces

/-!
# Splitting statements

A comma or a blank separates two parts of a statement where it stands outside quotes and outside
parentheses. Quotes are read as they are where a statement is expanded, with doubled quotes and
backslashes.

* `Place` : where a reader stands: in quotes or not, and how many parentheses deep;
* `tops` : the characters outside of both;
* `splitFrom`, `words`, `items` : a text split at one character, at blanks and at commas;
* `cut?`, `inParentheses?` : a text cut in two at a character, and the text in parentheses;
* `Balanced` : texts behind which a reader stands where it stood before, in whatever parentheses
  they are;
* `Single` : balanced texts that a character does not split;
* `words_intercalate`, `items_commaSeparated`, `inParentheses?_append` : what was put together from
  such texts is taken apart again.
-/

namespace ContentTables

/-! ## Places in a statement -/

structure Place where
  state : ScanState
  depth : Nat
deriving DecidableEq

namespace Place

/-- Outside quotes and parentheses. -/
def top : Place := ⟨.outside, 0⟩

/-- Parentheses in quotes are text. -/
def step (p : Place) (c : Char) : Place where
  state := p.state.step c
  depth :=
    if p.state ≠ .outside then p.depth
    else if c = '(' then p.depth + 1
    else if c = ')' then p.depth - 1
    else p.depth

def run (p : Place) (cs : List Char) : Place := cs.foldl step p

@[simp] theorem run_nil (p : Place) : p.run [] = p := rfl

@[simp] theorem run_cons (p : Place) (c : Char) (cs : List Char) :
    p.run (c :: cs) = (p.step c).run cs := rfl

@[simp] theorem run_append (p : Place) (cs ds : List Char) :
    p.run (cs ++ ds) = (p.run cs).run ds := List.foldl_append

end Place

open Place

/-- The characters outside quotes and parentheses, the quotes themselves left out. -/
def tops : Place → List Char → List Char
  | _, [] => []
  | p, c :: cs => (if p = top ∧ isQuote c = false then [c] else []) ++ tops (p.step c) cs

theorem tops_append (p : Place) (cs ds : List Char) :
    tops p (cs ++ ds) = tops p cs ++ tops (p.run cs) ds := by
  induction cs generalizing p with
  | nil => rfl
  | cons c cs ih => rw [List.cons_append, tops, tops, ih, List.append_assoc, run_cons]

/-! ## Splitting -/

def splitFrom (sep : Char) : Place → List Char → List (List Char)
  | _, [] => [[]]
  | p, c :: cs =>
    if p = top ∧ c = sep then [] :: splitFrom sep (p.step c) cs
    else (splitFrom sep (p.step c) cs).modifyHead (c :: ·)

def words (text : String) : List String :=
  (splitFrom ' ' top text.toList).map String.ofList

/-- The members of a list with commas between them, without the blanks in front of each. -/
def items (text : String) : List String :=
  if text.toList = [] then []
  else (splitFrom ',' top text.toList).map fun cs => String.ofList (cs.dropWhile (· == ' '))

/-- What stands before the first such character and what stands behind it. -/
def cut? (sep : Char) : Place → List Char → Option (List Char × List Char)
  | _, [] => none
  | p, c :: cs =>
    if p = top ∧ c = sep then some ([], cs)
    else (cut? sep (p.step c) cs).map fun (before, after) => (c :: before, after)

/-- The text in the first parentheses. -/
def inParentheses? (text : String) : Option String := do
  let (_, rest) ← cut? '(' top text.toList
  let (inner, _) ← cut? ')' top rest
  some (String.ofList inner)

section Split
variable {sep : Char} {p : Place} {cs : List Char}

theorem splitFrom_ne_nil : splitFrom sep p cs ≠ [] := by
  induction cs generalizing p with
  | nil => exact nofun
  | cons c cs ih =>
    rw [splitFrom]
    split
    · exact nofun
    · exact fun h => ih (List.modifyHead_eq_nil_iff.mp h)

/-- A part ends where the character stands at the top. -/
theorem splitFrom_append (h : p.run cs = top) (ds : List Char) :
    splitFrom sep p (cs ++ sep :: ds) = splitFrom sep p cs ++ splitFrom sep (top.step sep) ds := by
  induction cs generalizing p with
  | nil =>
    obtain rfl : p = top := h
    exact if_pos ⟨rfl, rfl⟩
  | cons c cs ih =>
    obtain ⟨part, parts, hparts⟩ :=
      List.exists_cons_of_ne_nil (@splitFrom_ne_nil sep (p.step c) cs)
    rw [List.cons_append, splitFrom, splitFrom, ih h, hparts]
    split
    · rfl
    · rfl

theorem not_mem_tops_cons {c : Char} (hsep : isQuote sep = false) (h : sep ∉ tops p (c :: cs)) :
    ¬(p = top ∧ c = sep) ∧ sep ∉ tops (p.step c) cs := by
  rw [tops, List.mem_append, not_or] at h
  refine ⟨?_, h.2⟩
  rintro ⟨hp, rfl⟩
  rw [if_pos ⟨hp, hsep⟩] at h
  exact h.1 (List.mem_singleton_self _)

theorem splitFrom_eq_singleton (hsep : isQuote sep = false) (h : sep ∉ tops p cs) :
    splitFrom sep p cs = [cs] := by
  induction cs generalizing p with
  | nil => rfl
  | cons c cs ih =>
    obtain ⟨hhere, hrest⟩ := not_mem_tops_cons hsep h
    rw [splitFrom, if_neg hhere, ih hrest]
    rfl

theorem cut?_append (hsep : isQuote sep = false) (h : sep ∉ tops p cs) (hp : p.run cs = top)
    (ds : List Char) : cut? sep p (cs ++ sep :: ds) = some (cs, ds) := by
  induction cs generalizing p with
  | nil => exact if_pos ⟨hp, rfl⟩
  | cons c cs ih =>
    obtain ⟨hhere, hrest⟩ := not_mem_tops_cons hsep h
    rw [List.cons_append, cut?, if_neg hhere, ih hrest hp]
    rfl

end Split

/-! ## Balanced texts -/

structure Balanced (cs : List Char) : Prop where
  back : ∀ depth, (Place.mk .outside depth).run cs = ⟨.outside, depth⟩
  /-- In parentheses, nothing of the text is outside of them. -/
  deep : ∀ depth, tops ⟨.outside, depth + 1⟩ cs = []

theorem ne_parenthesis_of_isQuote {c : Char} (h : isQuote c = true) : c ≠ '(' ∧ c ≠ ')' := by
  constructor
  · rintro rfl
    exact nomatch h
  · rintro rfl
    exact nomatch h

/-- Where nothing stands outside quotes, no parenthesis counts. -/
theorem run_of_unquoted {p : Place} {cs : List Char} (h : unquotedFrom p.state cs = []) :
    p.run cs = ⟨p.state.run cs, p.depth⟩ ∧ tops p cs = [] := by
  induction cs generalizing p with
  | nil => exact ⟨rfl, rfl⟩
  | cons c cs ih =>
    rw [← List.singleton_append, unquotedFrom_append, List.append_eq_nil_iff] at h
    obtain ⟨hc, hcs⟩ := h
    have hquoted : p.state = .outside → isQuote c = true := by
      intro houtside
      by_contra hquote
      simp [houtside, unquotedFrom, marksFrom, hquote] at hc
    have hstep : p.step c = ⟨p.state.step c, p.depth⟩ := by
      by_cases houtside : p.state = .outside
      · obtain ⟨hopening, hclosing⟩ := ne_parenthesis_of_isQuote (hquoted houtside)
        simp [step, hopening, hclosing]
      · simp [step, houtside]
    have hhere : ¬(p = top ∧ isQuote c = false) := by
      rintro ⟨rfl, hquote⟩
      exact Bool.false_ne_true (hquote.symm.trans (hquoted rfl))
    obtain ⟨hrun, htops⟩ := ih (p := ⟨p.state.step c, p.depth⟩) hcs
    rw [run_cons, tops, hstep, hrun, htops, if_neg hhere]
    exact ⟨rfl, rfl⟩

/-- Neither a quote nor a parenthesis. -/
def isPlain (c : Char) : Bool := !isQuote c && c != '(' && c != ')'

def isPlainBut (sep c : Char) : Bool := isPlain c && c != sep

theorem step_of_isPlain {c : Char} (h : isPlain c = true) (depth : Nat) :
    (Place.mk .outside depth).step c = ⟨.outside, depth⟩ := by
  simp only [isPlain, Bool.and_eq_true, Bool.not_eq_true', bne_iff_ne, ne_eq] at h
  simp [step, ScanState.step, h]

namespace Balanced

variable {cs ds : List Char}

theorem nil : Balanced [] := ⟨fun _ => rfl, fun _ => rfl⟩

theorem append (h : Balanced cs) (h' : Balanced ds) : Balanced (cs ++ ds) where
  back depth := by rw [run_append, h.back, h'.back]
  deep depth := by rw [tops_append, h.back, h.deep, h'.deep, List.append_nil]

/-- A text all of which is in quotes. -/
theorem of_quoted (h : unquotedChars cs = []) (hrun : ScanState.outside.run cs = .outside) :
    Balanced cs where
  back depth := by rw [(run_of_unquoted (p := ⟨.outside, depth⟩) h).1, hrun]
  deep depth := (run_of_unquoted (p := ⟨.outside, depth + 1⟩) h).2

theorem plain (h : cs.all isPlain = true) : Balanced cs := by
  induction cs with
  | nil => exact nil
  | cons c cs ih =>
    obtain ⟨hc, hcs⟩ := Bool.and_eq_true_iff.mp h
    refine ⟨fun depth => ?_, fun depth => ?_⟩
    · rw [run_cons, step_of_isPlain hc, (ih hcs).back]
    · rw [tops, step_of_isPlain hc, (ih hcs).deep, if_neg fun h => nomatch h.1]
      rfl

theorem parenthesized (h : Balanced cs) : Balanced ('(' :: (cs ++ [')'])) where
  back depth := by
    have hopening : (Place.mk .outside depth).step '(' = ⟨.outside, depth + 1⟩ := rfl
    rw [run_cons, hopening, run_append, h.back]
    rfl
  deep depth := by
    have hopening : (Place.mk .outside (depth + 1)).step '(' = ⟨.outside, depth + 2⟩ := rfl
    rw [tops, hopening, tops_append, h.deep, h.back]
    rfl

theorem run_top (h : Balanced cs) : top.run cs = top := h.back 0

theorem tops_append (h : Balanced cs) (ds : List Char) :
    tops top (cs ++ ds) = tops top cs ++ tops top ds := by
  rw [ContentTables.tops_append, h.run_top]

theorem splitFrom_append {sep : Char} (hsep : top.step sep = top) (h : Balanced cs)
    (ds : List Char) :
    splitFrom sep top (cs ++ sep :: ds) = splitFrom sep top cs ++ splitFrom sep top ds := by
  rw [ContentTables.splitFrom_append h.run_top, hsep]

end Balanced

/-- The whole of a plain text stands where it begins. -/
theorem tops_plain {cs : List Char} (h : cs.all isPlain = true) : tops top cs = cs := by
  induction cs with
  | nil => rfl
  | cons c cs ih =>
    obtain ⟨hc, hcs⟩ := Bool.and_eq_true_iff.mp h
    have hquote : isQuote c = false := by
      simp only [isPlain, Bool.and_eq_true, Bool.not_eq_true'] at hc
      exact hc.1.1
    have hstep : top.step c = top := step_of_isPlain hc 0
    rw [tops, hstep, ih hcs, if_pos ⟨rfl, hquote⟩]
    rfl

/-! ## Texts that a character does not split -/

/-- A balanced text in which the character does not stand outside quotes and parentheses. -/
structure Single (sep : Char) (cs : List Char) : Prop extends Balanced cs where
  unsplit : sep ∉ tops top cs

namespace Single

variable {sep : Char} {cs ds : List Char}

theorem append (h : Single sep cs) (h' : Single sep ds) : Single sep (cs ++ ds) where
  toBalanced := h.toBalanced.append h'.toBalanced
  unsplit := by
    rw [h.toBalanced.tops_append, List.mem_append]
    exact not_or.mpr ⟨h.unsplit, h'.unsplit⟩

theorem append_text {a b : String} (ha : Single sep a.toList) (hb : Single sep b.toList) :
    Single sep (a ++ b).toList := by
  rw [String.toList_append]
  exact ha.append hb

theorem of_quoted (h : unquotedChars cs = []) (hrun : ScanState.outside.run cs = .outside) :
    Single sep cs where
  toBalanced := .of_quoted h hrun
  unsplit := by
    rw [(run_of_unquoted (p := top) h).2]
    exact List.not_mem_nil

theorem plain (h : cs.all (isPlainBut sep) = true) : Single sep cs := by
  have heach : ∀ c ∈ cs, isPlain c = true ∧ c ≠ sep := fun c hc =>
    (Bool.and_eq_true_iff.mp (List.all_eq_true.mp h c hc)).imp_right bne_iff_ne.mp
  have hplain : cs.all isPlain = true := List.all_eq_true.mpr fun c hc => (heach c hc).1
  refine ⟨.plain hplain, ?_⟩
  rw [tops_plain hplain]
  exact fun hmem => (heach sep hmem).2 rfl

theorem parenthesized (hsep : sep ≠ '(') (h : Balanced cs) : Single sep ('(' :: (cs ++ [')'])) where
  toBalanced := h.parenthesized
  unsplit := by
    have hopening : top.step '(' = ⟨.outside, 1⟩ := rfl
    have hclosing : tops ⟨.outside, 1⟩ [')'] = [] := rfl
    rw [tops, hopening, ContentTables.tops_append, h.deep, h.back, hclosing]
    exact fun hmem => hsep (List.mem_singleton.mp hmem)

end Single

/-! ## Quoted texts -/

/-- A reader of the body of a quoted text stays inside. -/
theorem run_doubled_quotes (cs : List Char) :
    let body := cs.flatMap fun c => if c == '\'' || c == '\\' then [c, c] else [c]
    (ScanState.inside '\'').run body = .inside '\'' ∧ unquotedFrom (.inside '\'') body = [] := by
  induction cs with
  | nil => exact ⟨rfl, rfl⟩
  | cons c cs ih =>
    have hhere : let here := if c == '\'' || c == '\\' then [c, c] else [c]
        (ScanState.inside '\'').run here = .inside '\'' ∧
          unquotedFrom (.inside '\'') here = [] := by
      by_cases hquote : c = '\''
      · subst hquote
        exact ⟨rfl, rfl⟩
      · by_cases hslash : c = '\\'
        · subst hslash
          exact ⟨rfl, rfl⟩
        · simp [hquote, hslash, ScanState.step, unquotedFrom, marksFrom]
    obtain ⟨hrun, hnothing⟩ := hhere
    obtain ⟨hrest, hnothings⟩ := ih
    intro body
    have hbody : body = _ := List.flatMap_cons
    rw [hbody, ScanState.run_append, unquotedFrom_append, hrun, hnothing]
    exact ⟨hrest, hnothings⟩

theorem single_quoteIdent (sep : Char) (name : String) : Single sep (quoteIdent name).toList :=
  .of_quoted (unquotedFrom_quoteIdent name) (run_quoteIdent name)

theorem single_quoteLiteral (sep : Char) (text : String) :
    Single sep (quoteLiteral text).toList := by
  obtain ⟨hrun, hbody⟩ := run_doubled_quotes text.toList
  have hopening : ScanState.outside.run ['\''] = .inside '\'' := rfl
  have hnothing : unquotedFrom .outside ['\''] = [] := rfl
  rw [quoteLiteral, String.toList_ofList, quotedBy, ← List.singleton_append, List.append_assoc]
  refine .of_quoted ?_ ?_
  · show unquotedFrom .outside _ = []
    rw [unquotedFrom_append, unquotedFrom_append, hopening, hbody, hrun]
    rfl
  · rw [ScanState.run_append, ScanState.run_append, hopening, hrun]
    rfl

/-! ## Lists of texts -/

/-- What holds of texts and their separator, and of two texts in a row, holds of a list of them. -/
theorem of_intercalate {P : List Char → Prop} {separator : String} {texts : List String}
    (hnil : P []) (happend : ∀ {cs ds : List Char}, P cs → P ds → P (cs ++ ds))
    (hseparator : P separator.toList) (h : ∀ text ∈ texts, P text.toList) :
    P (separator.intercalate texts).toList := by
  induction texts with
  | nil => exact hnil
  | cons text texts ih =>
    obtain ⟨htext, htexts⟩ := List.forall_mem_cons.mp h
    cases texts with
    | nil => rwa [String.intercalate_singleton]
    | cons other texts =>
      rw [String.intercalate_cons_cons, String.toList_append, String.toList_append]
      exact happend (happend htext hseparator) (ih htexts)

theorem words_intercalate {texts : List String} (hne : texts ≠ [])
    (h : ∀ text ∈ texts, Balanced text.toList) :
    words (" ".intercalate texts) = texts.flatMap words := by
  induction texts with
  | nil => exact absurd rfl hne
  | cons text texts ih =>
    obtain ⟨htext, htexts⟩ := List.forall_mem_cons.mp h
    cases texts with
    | nil =>
      rw [String.intercalate_singleton]
      exact (List.append_nil _).symm
    | cons other texts =>
      have hchars : (" ".intercalate (text :: other :: texts)).toList =
          text.toList ++ ' ' :: (" ".intercalate (other :: texts)).toList := by
        rw [String.intercalate_cons_cons, String.toList_append, String.toList_append]
        simp
      rw [words, hchars, htext.splitFrom_append rfl, List.map_append, List.flatMap_cons,
        ← ih nofun htexts]
      rfl

/-- Behind a comma there is a blank. -/
theorem splitFrom_commaSeparated {text : String} {texts : List String}
    (h : ∀ t ∈ text :: texts, Single ',' t.toList) :
    splitFrom ',' top (commaSeparated (text :: texts)).toList =
      text.toList :: texts.map fun t => ' ' :: t.toList := by
  induction texts generalizing text with
  | nil =>
    rw [commaSeparated, String.intercalate_singleton]
    exact splitFrom_eq_singleton rfl (h text List.mem_cons_self).unsplit
  | cons other texts ih =>
    obtain ⟨htext, htexts⟩ := List.forall_mem_cons.mp h
    have hchars : (commaSeparated (text :: other :: texts)).toList =
        text.toList ++ ',' :: ' ' :: (commaSeparated (other :: texts)).toList := by
      rw [commaSeparated, String.intercalate_cons_cons, String.toList_append, String.toList_append]
      simp [commaSeparated]
    have hblank : top.step ' ' = top := rfl
    have hskip : splitFrom ',' top (' ' :: (commaSeparated (other :: texts)).toList) =
        (splitFrom ',' top (commaSeparated (other :: texts)).toList).modifyHead (' ' :: ·) := by
      rw [splitFrom, if_neg (by simp), hblank]
    rw [hchars, htext.toBalanced.splitFrom_append rfl, hskip, ih htexts,
      splitFrom_eq_singleton rfl htext.unsplit]
    rfl

theorem items_commaSeparated {texts : List String} (h : ∀ text ∈ texts, Single ',' text.toList)
    (hstart : ∀ text ∈ texts, ∃ c ∈ text.toList.head?, c ≠ ' ') :
    items (commaSeparated texts) = texts := by
  have htrimmed : ∀ text ∈ texts, String.ofList (text.toList.dropWhile (· == ' ')) = text := by
    intro text htext
    obtain ⟨c, hhead, hc⟩ := hstart text htext
    obtain ⟨cs, hchars⟩ := List.head?_eq_some_iff.mp hhead
    rw [hchars, List.dropWhile_cons_of_neg (by simpa using hc), ← hchars, String.ofList_toList]
  cases texts with
  | nil => rfl
  | cons text texts =>
    have hsplit := splitFrom_commaSeparated h
    have hfull : (commaSeparated (text :: texts)).toList ≠ [] := by
      intro hnil
      obtain ⟨c, hhead, _⟩ := hstart text List.mem_cons_self
      obtain ⟨cs, hchars⟩ := List.head?_eq_some_iff.mp hhead
      rw [hnil, hchars] at hsplit
      exact nomatch (List.cons.inj hsplit).1
    obtain ⟨hfirst, hrest⟩ := List.forall_mem_cons.mp htrimmed
    rw [items, if_neg hfull, hsplit, List.map_cons, hfirst, List.map_map]
    exact congrArg _ ((List.map_congr_left hrest).trans (List.map_id' texts))

theorem inParentheses?_append {before inner : String} (hbefore : Single '(' before.toList)
    (hinner : Single ')' inner.toList) (after : String) :
    inParentheses? (before ++ "(" ++ inner ++ ")" ++ after) = some inner := by
  have hchars : (before ++ "(" ++ inner ++ ")" ++ after).toList =
      before.toList ++ '(' :: (inner.toList ++ ')' :: after.toList) := by
    simp
  have hopening := cut?_append rfl hbefore.unsplit hbefore.toBalanced.run_top
    (inner.toList ++ ')' :: after.toList)
  have hclosing := cut?_append rfl hinner.unsplit hinner.toBalanced.run_top after.toList
  rw [inParentheses?, hchars, hopening]
  simp only [Option.bind_eq_bind, Option.bind_some, hclosing, String.ofList_toList]

end ContentTables
