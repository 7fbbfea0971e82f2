import ContentTables.Proofs.Sql.Expanding

/-!
# Expanding any text

A statement that the store builds is known in pieces. The text of a statement that comes from
outside can be anything: a quote written twice, a backslash in front of one, a quote that never
closes. Here any text is cut into the quoted parts and the characters outside of them, by the rules
for quotes alone, and expanding it is said in terms of that.

* `QuotedRest` : a quoted part behind its opening quote, and what follows it;
* `Cut` : a text in spans; `exists_cut`, `Cut.unique` : there is exactly one way to cut it;
* `rewritten` : the text in which each placeholder gives way to what the parameter of its number
  makes of it;
* `Statement.expand_cut` : this is the expanded statement, for any text and any parameters.
-/

namespace ContentTables

open Statement

/-! ## Spans of a text -/

/-- A character outside quotes, or a quoted part, its quotes included. -/
inductive Span where
  | bare (c : Char)
  | quoted (cs : List Char)
deriving DecidableEq

/-- A quoted part behind its opening quote, and the text that follows it. A quote written twice does
not end it, nor does one behind a backslash, unless the quote is a backtick; and it may not end at
all. -/
inductive QuotedRest (quote : Char) : List Char → List Char → Prop
  | closed {rest} (hrest : rest.head? ≠ some quote) : QuotedRest quote [quote] rest
  | unclosed : QuotedRest quote [] []
  | backslash (hquote : quote ≠ backtick) : QuotedRest quote ['\\'] []
  | plain {c cs rest} (hc : c ≠ quote) (hslash : c = '\\' → quote = backtick)
      (h : QuotedRest quote cs rest) : QuotedRest quote (c :: cs) rest
  | doubled {cs rest} (h : QuotedRest quote cs rest) :
      QuotedRest quote (quote :: quote :: cs) rest
  | escaped {cs rest} (hquote : quote ≠ backtick) (c : Char) (h : QuotedRest quote cs rest) :
      QuotedRest quote ('\\' :: c :: cs) rest

inductive Cut : List Char → List Span → Prop
  | nil : Cut [] []
  | bare {c cs spans} (hc : isQuote c = false) (h : Cut cs spans) : Cut (c :: cs) (.bare c :: spans)
  | quoted {quote cs rest spans} (hquote : isQuote quote = true) (hpart : QuotedRest quote cs rest)
      (h : Cut rest spans) : Cut (quote :: (cs ++ rest)) (.quoted (quote :: cs) :: spans)

/-! ## Every text is cut in one way -/

theorem exists_quotedRest (quote : Char) :
    ∀ cs : List Char, ∃ part rest, part ++ rest = cs ∧ QuotedRest quote part rest
  | [] => ⟨[], [], rfl, .unclosed⟩
  | c :: cs => by
    by_cases hslash : c = '\\' ∧ quote ≠ backtick
    · obtain ⟨rfl, hquote⟩ := hslash
      cases cs with
      | nil => exact ⟨['\\'], [], rfl, .backslash hquote⟩
      | cons d ds =>
        obtain ⟨part, rest, rfl, hpart⟩ := exists_quotedRest quote ds
        exact ⟨'\\' :: d :: part, rest, rfl, .escaped hquote d hpart⟩
    · by_cases hc : c = quote
      · subst hc
        by_cases hdoubled : cs.head? = some c
        · obtain ⟨ds, rfl⟩ := List.head?_eq_some_iff.mp hdoubled
          obtain ⟨part, rest, rfl, hpart⟩ := exists_quotedRest c ds
          exact ⟨c :: c :: part, rest, rfl, .doubled hpart⟩
        · exact ⟨[c], cs, rfl, .closed hdoubled⟩
      · obtain ⟨part, rest, rfl, hpart⟩ := exists_quotedRest quote cs
        have hplain : c = '\\' → quote = backtick := fun h => by_contra fun hne => hslash ⟨h, hne⟩
        exact ⟨c :: part, rest, rfl, .plain hc hplain hpart⟩
termination_by cs => cs.length

theorem exists_cut (cs : List Char) : ∃ spans, Cut cs spans := by
  cases cs with
  | nil => exact ⟨[], .nil⟩
  | cons c cs =>
    cases hc : isQuote c with
    | false =>
      obtain ⟨spans, h⟩ := exists_cut cs
      exact ⟨_, .bare hc h⟩
    | true =>
      obtain ⟨part, rest, hcs, hpart⟩ := exists_quotedRest c cs
      have hlength : rest.length ≤ cs.length := by
        rw [← hcs, List.length_append]
        exact Nat.le_add_left _ _
      obtain ⟨spans, h⟩ := exists_cut rest
      refine ⟨.quoted (c :: part) :: spans, ?_⟩
      rw [← hcs]
      exact .quoted hc hpart h
termination_by cs.length
decreasing_by all_goals rw [List.length_cons]; omega

theorem quote_ne_backslash {quote : Char} (hquote : isQuote quote = true) : quote ≠ '\\' := by
  rintro rfl
  exact absurd hquote (by decide)

/-- The first character, and behind a quote the second, tells how a quoted part goes on. -/
theorem QuotedRest.unique {quote : Char} (hquote : isQuote quote = true)
    {part part' rest rest' : List Char} (h : QuotedRest quote part rest)
    (h' : QuotedRest quote part' rest') (hsame : part ++ rest = part' ++ rest') :
    part = part' ∧ rest = rest' := by
  have hne := quote_ne_backslash hquote
  induction h generalizing part' with
  | closed hrest => cases h' <;> grind
  | unclosed => cases h' <;> grind
  | backslash _ => cases h' <;> grind
  | plain hc hslash _ ih => cases h' <;> grind
  | doubled _ ih => cases h' <;> grind
  | escaped _ c _ ih => cases h' <;> grind

theorem Cut.unique {cs : List Char} {spans spans' : List Span} (h : Cut cs spans)
    (h' : Cut cs spans') : spans' = spans := by
  induction h generalizing spans' with
  | nil =>
    cases h'
    rfl
  | bare hc _ ih =>
    cases h' with
    | bare _ h' => rw [ih h']
    | quoted hquote _ _ => exact nomatch hquote.symm.trans hc
  | @quoted quote part rest _ hquote hpart _ ih =>
    generalize hcs : quote :: (part ++ rest) = cs at h'
    cases h' with
    | nil => exact nomatch hcs
    | bare hc _ =>
      obtain ⟨rfl, -⟩ := List.cons.inj hcs
      exact nomatch hquote.symm.trans hc
    | quoted _ hpart' h' =>
      obtain ⟨rfl, hsame⟩ := List.cons.inj hcs
      obtain ⟨rfl, rfl⟩ := hpart.unique hquote hpart' hsame
      rw [ih h']

/-! ## What becomes of the placeholders -/

namespace Span

def chars : Span → List Char
  | .bare c => [c]
  | .quoted cs => cs

/-- Only outside quotes is a question mark a placeholder. -/
def isMark : Span → Bool
  | .bare c => c == '?'
  | .quoted _ => false

end Span

/-- What a parameter makes of its placeholder. -/
def replacement : Json → String
  | .arr [] => "NULL"
  | .arr items => ", ".intercalate (List.replicate items.length "?")
  | _ => "?"

/-- An array gives way to its elements, of which each is one parameter whatever it is. -/
def spread : Json → List Json
  | .arr items => items
  | v => [v]

/-- The text of spans in front of which there are that many placeholders. -/
def rewritten (params : List Json) : Nat → List Span → List Char
  | _, [] => []
  | i, span :: spans =>
    if span.isMark then
      ((params[i]?.map replacement).getD "?").toList ++ rewritten params (i + 1) spans
    else span.chars ++ rewritten params i spans

theorem rewritten_mark (params : List Json) (i : Nat) (spans : List Span) :
    rewritten params i (.bare '?' :: spans) =
      ((params[i]?.map replacement).getD "?").toList ++ rewritten params (i + 1) spans := rfl

theorem fill_eq (v : Json) : fill v = (replacement v, spread v) := by
  cases v with
  | arr items =>
    cases items with
    | nil => rfl
    | cons v vs =>
      rw [fill, replacement, placeholders, commaSeparated, List.map_const']
      · rfl
      · exact nofun
  | _ => rfl

theorem Cut.chars {cs : List Char} {spans : List Span} (h : Cut cs spans) :
    spans.flatMap Span.chars = cs := by
  induction h with
  | nil => rfl
  | bare _ _ ih => rw [List.flatMap_cons, ih]; rfl
  | quoted _ _ _ ih => rw [List.flatMap_cons, ih]; rfl

/-- Without arrays every placeholder stays what it is. -/
theorem rewritten_of_noArray {params : List Json} (h : ∀ v ∈ params, v.isArray = false)
    (i : Nat) (spans : List Span) : rewritten params i spans = spans.flatMap Span.chars := by
  have hmark : ∀ i : Nat, (params[i]?.map replacement).getD "?" = "?" := by
    intro i
    cases hv : params[i]? with
    | none => rfl
    | some v =>
      have hnone := h v (List.mem_of_getElem? hv)
      cases v with
      | arr items => exact nomatch hnone
      | _ => rfl
  induction spans generalizing i with
  | nil => rfl
  | cons span spans ih =>
    rw [rewritten, List.flatMap_cons, ih, ih, hmark]
    cases span with
    | quoted cs => rfl
    | bare c =>
      split
      · rename_i hc
        rw [eq_of_beq hc]
        rfl
      · rfl

theorem flatMap_spread_of_noArray {params : List Json} (h : ∀ v ∈ params, v.isArray = false) :
    params.flatMap spread = params := by
  have hone : ∀ v ∈ params, spread v = [v] := by
    intro v hv
    have hnone := h v hv
    cases v with
    | arr items => exact nomatch hnone
    | _ => rfl
  rw [List.flatMap_congr hone, List.flatMap_singleton']

/-! ## The scan -/

section Quote
variable {quote : Char} (hquote : isQuote quote = true)
include hquote

theorem step_outside_quote : ScanState.outside.step quote = .inside quote := by
  rw [ScanState.step, if_pos hquote]

theorem step_inside_quote : (ScanState.inside quote).step quote = .outside := by
  rw [ScanState.step, if_neg fun h => quote_ne_backslash hquote h.1, if_pos rfl]

theorem unquotedFrom_quote (cs : List Char) :
    unquotedFrom .outside (quote :: cs) = unquotedFrom (.inside quote) cs := by
  rw [unquotedFrom, marksFrom, step_outside_quote hquote,
    List.filter_cons_of_neg (by simp [hquote])]
  rfl

end Quote

theorem unquotedFrom_inside (quote c : Char) (cs : List Char) :
    unquotedFrom (.inside quote) (c :: cs) = unquotedFrom ((ScanState.inside quote).step c) cs :=
  rfl

/-- Where the text is over, it does not matter where a reader stands. -/
theorem expandFrom_nil (state : ScanState) (params : List Json) :
    expandFrom state [] params = ([], params) := by
  rw [expandFrom.eq_def]

theorem expandFrom_mark_nil (cs : List Char) : expandFrom .outside ('?' :: cs) [] =
    ('?' :: (expandFrom .outside cs []).1, (expandFrom .outside cs []).2) := rfl

theorem expandFrom_mark_cons (cs : List Char) (v : Json) (vs : List Json) :
    expandFrom .outside ('?' :: cs) (v :: vs) =
      ((fill v).1.toList ++ (expandFrom .outside cs vs).1,
        (fill v).2 ++ (expandFrom .outside cs vs).2) := rfl

theorem drop_cons {α : Type} {items rest : List α} {i : Nat} {a : α}
    (h : items.drop i = a :: rest) : items[i]? = some a ∧ items.drop (i + 1) = rest := by
  constructor
  · rw [← List.head?_drop, h, List.head?_cons]
  · rw [← List.drop_drop, h, List.drop_one, List.tail_cons]

namespace QuotedRest

variable {quote : Char} {part rest : List Char}

/-- A quoted part has nothing outside quotes, and leaves a reader there unless the text is over. -/
theorem scan (hquote : isQuote quote = true) (h : QuotedRest quote part rest) :
    unquotedFrom (.inside quote) part = [] ∧
      (rest = [] ∨ (ScanState.inside quote).run part = .outside) := by
  induction h with
  | closed _ => exact ⟨rfl, Or.inr (step_inside_quote hquote)⟩
  | unclosed => exact ⟨rfl, Or.inl rfl⟩
  | backslash _ => exact ⟨rfl, Or.inl rfl⟩
  | @plain c cs rest hc hslash _ ih =>
    have hstep : (ScanState.inside quote).step c = .inside quote := by
      rw [ScanState.step, if_neg fun h => h.2 (hslash h.1), if_neg hc]
    rw [unquotedFrom_inside, ScanState.run_cons, hstep]
    exact ih
  | @doubled cs rest _ ih =>
    rw [unquotedFrom_inside, step_inside_quote hquote, unquotedFrom_quote hquote,
      ScanState.run_cons, step_inside_quote hquote, ScanState.run_cons, step_outside_quote hquote]
    exact ih
  | @escaped cs rest hbacktick c _ ih =>
    have hstep : (ScanState.inside quote).step '\\' = .escaped quote := by
      rw [ScanState.step, if_pos ⟨rfl, hbacktick⟩]
    rw [unquotedFrom_inside, ScanState.run_cons, hstep]
    exact ih

theorem expandFrom (hquote : isQuote quote = true) (h : QuotedRest quote part rest)
    (params : List Json) : Statement.expandFrom .outside (quote :: (part ++ rest)) params =
      (quote :: part ++ (Statement.expandFrom .outside rest params).1,
        (Statement.expandFrom .outside rest params).2) := by
  obtain ⟨hnone, hend⟩ := h.scan hquote
  have hpart : '?' ∉ unquotedFrom .outside (quote :: part) := by
    rw [unquotedFrom_quote hquote, hnone]
    exact List.not_mem_nil
  rw [← List.cons_append, expandFrom_append hpart, ScanState.run_cons, step_outside_quote hquote]
  rcases hend with rfl | houtside
  · rw [expandFrom_nil, expandFrom_nil]
  · rw [houtside]

end QuotedRest

/-- The scan that has used up `i` parameters fills in the others. -/
theorem Cut.expandFrom {cs : List Char} {spans : List Span} (h : Cut cs spans)
    (params : List Json) (i : Nat) : Statement.expandFrom .outside cs (params.drop i) =
      (rewritten params i spans,
        ((params.drop i).take (spans.countP Span.isMark)).flatMap spread ++
          (params.drop i).drop (spans.countP Span.isMark)) := by
  induction h generalizing i with
  | nil =>
    rw [expandFrom_nil]
    rfl
  | @bare c cs spans hc _ ih =>
    by_cases hmark : c = '?'
    · subst hmark
      rw [rewritten_mark, List.countP_cons_of_pos rfl]
      cases hdrop : params.drop i with
      | nil =>
        have hover : params.length ≤ i := List.drop_eq_nil_iff.mp hdrop
        have hrest := ih (i + 1)
        rw [List.drop_eq_nil_iff.mpr (Nat.le_succ_of_le hover)] at hrest
        rw [expandFrom_mark_nil, hrest, List.getElem?_eq_none hover]
        simp
      | cons v vs =>
        obtain ⟨hv, hvs⟩ := drop_cons hdrop
        have hrest := ih (i + 1)
        rw [hvs] at hrest
        rw [expandFrom_mark_cons, hrest, hv, fill_eq, List.take_succ_cons, List.flatMap_cons,
          List.append_assoc]
        rfl
    · have hstep : ScanState.outside.run [c] = .outside := by simp [ScanState.step, hc]
      have hnone : '?' ∉ unquotedFrom .outside [c] := by
        rw [(unquotedFrom_outside (List.forall_mem_singleton.mpr hc)).1]
        exact mt List.mem_singleton.mp (Ne.symm hmark)
      have hspan : (Span.bare c).isMark = false := beq_false_of_ne hmark
      rw [← List.singleton_append, expandFrom_append hnone, hstep, ih i, rewritten,
        List.countP_cons_of_neg (by simp [hspan]), if_neg (by simp [hspan])]
      rfl
  | quoted hquote hpart _ ih =>
    rw [hpart.expandFrom hquote, ih i]
    rfl

namespace Statement

/-- Any text is cut in one way, and expanding changes of it the placeholders whose parameters are
arrays, the `i`-th parameter belonging to the `i`-th placeholder. Of the parameters that have a
placeholder the arrays give way to their elements, and the others stay as they are. The scan comes
to this for all parameters, also for those for which it is left out. -/
theorem expand_cut (s : Statement) : ∃ spans, Cut s.sql.toList spans ∧
    (∀ spans', Cut s.sql.toList spans' → spans' = spans) ∧
    s.expand.sql.toList = rewritten s.params 0 spans ∧
    s.expand.params = (s.params.take (spans.countP Span.isMark)).flatMap spread ++
      s.params.drop (spans.countP Span.isMark) ∧
    expandFrom .outside s.sql.toList s.params = (s.expand.sql.toList, s.expand.params) := by
  obtain ⟨spans, h⟩ := exists_cut s.sql.toList
  have hscan := h.expandFrom s.params 0
  rw [List.drop_zero] at hscan
  have hexpand : expandFrom .outside s.sql.toList s.params =
      (s.expand.sql.toList, s.expand.params) := by
    unfold expand
    split
    · rw [String.toList_ofList]
    · rename_i hnone
      have hparams : ∀ v ∈ s.params, v.isArray = false := by simpa using hnone
      have hfront : ∀ v ∈ s.params.take (spans.countP Span.isMark), v.isArray = false :=
        fun v hv => hparams v (List.mem_of_mem_take hv)
      rw [hscan, rewritten_of_noArray hparams, h.chars, flatMap_spread_of_noArray hfront,
        List.take_append_drop]
  obtain ⟨hsql, hbound⟩ := Prod.mk.inj (hexpand.symm.trans hscan)
  exact ⟨spans, h, fun _ => h.unique, hsql, hbound, hexpand⟩

/-- A backslash in front of a quote, a quote written twice, a backslash between backticks and a
quoted part that does not end. -/
example :
    let s : Statement := ⟨"'\\'?' ? \x60a\x60\x60?\\\x60 ? \"?", [.arr [.null, .null], .arr []]⟩
    s.expand.sql = "'\\'?' ?, ? \x60a\x60\x60?\\\x60 NULL \"?" := by decide

end Statement

end ContentTables
