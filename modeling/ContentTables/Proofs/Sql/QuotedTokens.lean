import ContentTables.Proofs.Sql.Pieces

/-!
# The quoted parts of a text

A text is split one character at a time. A quoted part ends at a quote that no second one follows;
where one follows, both stand for a quote in the part.

* `Splitter`, `quotedTokens?` : the quoted parts of a text, `none` if the text ends inside one;
* `Splitter.scanState_run` : the rules are those under which placeholders are found;
* `quotedTokens?_chars` : the quoted parts of a text in pieces are its names.
-/

namespace ContentTables

/-- What stands between two quotes, every quote in it once. -/
structure QuotedToken where
  quote : Char
  body : String
deriving DecidableEq

inductive Splitter where
  | outside
  | inside (quote : Char) (body : List Char)
  /-- Behind a backslash. -/
  | escaped (quote : Char) (body : List Char)
  /-- Behind a quote, which ends the part unless a second one follows. -/
  | ended (quote : Char) (body : List Char)

namespace Splitter

/-- The parts that end before a character, and the state behind it. -/
def step : Splitter → Char → List QuotedToken × Splitter
  | .outside, c => ([], if isQuote c then .inside c [] else .outside)
  | .inside quote body, c =>
    if c = '\\' ∧ quote ≠ backtick then ([], .escaped quote (body ++ [c]))
    else if c = quote then ([], .ended quote body)
    else ([], .inside quote (body ++ [c]))
  | .escaped quote body, c => ([], .inside quote (body ++ [c]))
  | .ended quote body, c =>
    if c = quote then ([], .inside quote (body ++ [c]))
    else ([⟨quote, .ofList body⟩], if isQuote c then .inside c [] else .outside)

/-- The parts that end where the text ends. -/
def finish : Splitter → Option (List QuotedToken)
  | .outside => some []
  | .ended quote body => some [⟨quote, .ofList body⟩]
  | _ => none

def tokens? : Splitter → List Char → Option (List QuotedToken)
  | state, [] => state.finish
  | state, c :: cs => ((state.step c).2.tokens? cs).map ((state.step c).1 ++ ·)

/-! ## The same rules as for placeholders -/

def scanState : Splitter → ScanState
  | .outside | .ended .. => .outside
  | .inside quote _ => .inside quote
  | .escaped quote _ => .escaped quote

/-- The part was opened by a quote. -/
def Opened : Splitter → Prop
  | .outside => True
  | .inside quote _ | .escaped quote _ | .ended quote _ => isQuote quote = true

def run (state : Splitter) (cs : List Char) : Splitter :=
  cs.foldl (fun state c => (state.step c).2) state

theorem opened_outside_step (c : Char) :
    (if isQuote c then .inside c [] else .outside : Splitter).Opened := by
  split
  · assumption
  · exact trivial

theorem Opened.step {state : Splitter} (h : state.Opened) (c : Char) :
    (state.step c).2.Opened := by
  cases state with
  | outside => exact opened_outside_step c
  | inside quote body =>
    rw [Splitter.step]
    split
    · exact h
    · split <;> exact h
  | escaped quote body => exact h
  | ended quote body =>
    rw [Splitter.step]
    split
    · exact h
    · exact opened_outside_step c

theorem scanState_step {state : Splitter} (h : state.Opened) (c : Char) :
    (state.step c).2.scanState = state.scanState.step c := by
  have houtside : (if isQuote c then .inside c [] else .outside : Splitter).scanState =
      ScanState.outside.step c := by
    rw [ScanState.step]
    split <;> rfl
  cases state with
  | outside => exact houtside
  | inside quote body =>
    rw [step, scanState, ScanState.step]
    split
    · rfl
    · split <;> rfl
  | escaped quote body => rfl
  | ended quote body =>
    rw [step]
    split
    · rename_i hsame
      subst hsame
      exact (if_pos h).symm
    · exact houtside

/-- A reader of quoted parts is inside quotes when a reader of placeholders is. -/
theorem scanState_run {state : Splitter} (h : state.Opened) (cs : List Char) :
    (state.run cs).scanState = state.scanState.run cs := by
  induction cs generalizing state with
  | nil => rfl
  | cons c cs ih => exact (ih (h.step c)).trans (congrArg (·.run cs) (scanState_step h c))

end Splitter

/-- The quoted parts of a text in order. -/
def quotedTokens? (sql : String) : Option (List QuotedToken) := Splitter.outside.tokens? sql.toList

/-! ## Texts in pieces -/

namespace Splitter

/-- No part ends before the character. -/
theorem tokens?_cons {state next : Splitter} {c : Char} (h : state.step c = ([], next))
    (cs : List Char) : state.tokens? (c :: cs) = next.tokens? cs := by
  rw [tokens?, h]
  exact Option.map_id_apply ..

theorem tokens?_outside_append {cs : List Char} (h : ∀ c ∈ cs, isQuote c = false)
    (rest : List Char) : outside.tokens? (cs ++ rest) = outside.tokens? rest := by
  induction cs with
  | nil => rfl
  | cons c cs ih =>
    obtain ⟨hc, hcs⟩ := List.forall_mem_cons.mp h
    have hstep : outside.step c = ([], outside) := by simp [step, hc]
    rw [List.cons_append, tokens?_cons hstep, ih hcs]

/-- A part that no second quote follows is one of the parts. -/
theorem tokens?_ended_cons {quote c : Char} (hquote : isQuote quote = true)
    (hc : isQuote c = false) (body cs : List Char) :
    (ended quote body).tokens? (c :: cs) =
      (outside.tokens? (c :: cs)).map (⟨quote, .ofList body⟩ :: ·) := by
  have hne : c ≠ quote := by
    rintro rfl
    exact nomatch hquote.symm.trans hc
  have hended : (ended quote body).step c = ([⟨quote, .ofList body⟩], outside) := by
    simp [step, hne, hc]
  have houtside : outside.step c = ([], outside) := by simp [step, hc]
  rw [tokens?_cons houtside, tokens?, hended]
  rfl

theorem tokens?_doubled (cs body rest : List Char) :
    (inside backtick body).tokens?
        ((cs.flatMap fun c => if c == backtick then [c, c] else [c]) ++ rest) =
      (inside backtick (body ++ cs)).tokens? rest := by
  induction cs generalizing body with
  | nil =>
    rw [List.append_nil]
    rfl
  | cons c cs ih =>
    rw [List.append_cons body c cs, ← ih, List.flatMap_cons, List.append_assoc]
    by_cases hc : c = backtick
    · subst hc
      have hfirst : (inside backtick body).step backtick = ([], ended backtick body) := rfl
      have hsecond : (ended backtick body).step backtick =
          ([], inside backtick (body ++ [backtick])) := rfl
      exact (tokens?_cons hfirst _).trans (tokens?_cons hsecond _)
    · have hstep : (inside backtick body).step c = ([], inside backtick (body ++ [c])) := by
        simp [step, hc]
      rw [if_neg (by simpa using hc)]
      exact tokens?_cons hstep _

/-- Behind a quoted name, which may go on. -/
theorem tokens?_quoteIdent (name : String) (rest : List Char) :
    outside.tokens? ((quoteIdent name).toList ++ rest) =
      (ended backtick name.toList).tokens? rest := by
  have hfirst : outside.step backtick = ([], inside backtick []) := rfl
  have hlast : (inside backtick name.toList).step backtick = ([], ended backtick name.toList) := rfl
  rw [quoteIdent, String.toList_ofList, quotedBy, List.append_assoc, List.cons_append,
    tokens?_cons hfirst, tokens?_doubled, List.nil_append, List.singleton_append,
    tokens?_cons hlast]

end Splitter

open Splitter Piece

/-- A name between backticks. -/
def nameToken (s : String) : QuotedToken := ⟨backtick, s⟩

/-- From outside quotes, and from behind a name. -/
theorem tokens?_chars {ps : List Piece} (hcalm : ∀ p ∈ ps, p.Calm) (hapart : ps.IsChain Apart) :
    outside.tokens? (ps.flatMap chars) = some ((ps.filterMap name?).map nameToken) ∧
      (Opens ps → ∀ s : String, (ended backtick s.toList).tokens? (ps.flatMap chars) =
        some (nameToken s :: (ps.filterMap name?).map nameToken)) := by
  induction ps with
  | nil =>
    refine ⟨rfl, fun _ s => ?_⟩
    show some [QuotedToken.mk backtick (.ofList s.toList)] = some [nameToken s]
    rw [String.ofList_toList]
    rfl
  | cons p ps ih =>
    obtain ⟨hp, hps⟩ := List.forall_mem_cons.mp hcalm
    obtain ⟨hnext, hchain⟩ := List.isChain_cons.mp hapart
    obtain ⟨houtside, hended⟩ := ih hps hchain
    have hquiet : ∀ cs : List Char, cs ≠ [] → (∀ c ∈ cs, isQuote c = false) →
        outside.tokens? (cs ++ ps.flatMap chars) = some ((ps.filterMap name?).map nameToken) ∧
          ∀ s : String, (ended backtick s.toList).tokens? (cs ++ ps.flatMap chars) =
            some (nameToken s :: (ps.filterMap name?).map nameToken) := by
      intro cs hne hcs
      have hthere := (tokens?_outside_append hcs (ps.flatMap chars)).trans houtside
      refine ⟨hthere, fun s => ?_⟩
      cases cs with
      | nil => exact absurd rfl hne
      | cons c cs =>
        rw [List.cons_append] at hthere ⊢
        rw [tokens?_ended_cons rfl (hcs c List.mem_cons_self), hthere, String.ofList_toList]
        rfl
    cases p with
    | plain text =>
      obtain ⟨hne, hcs⟩ := calmText_iff.mp hp
      obtain ⟨hfirst, hlast⟩ := hquiet text.toList hne fun c hc => (hcs c hc).1
      exact ⟨hfirst, fun _ => hlast⟩
    | mark =>
      obtain ⟨hfirst, hlast⟩ := hquiet ['?'] nofun (List.forall_mem_singleton.mpr rfl)
      exact ⟨hfirst, fun _ => hlast⟩
    | name t =>
      have hopens : Opens ps := fun q hq => (hnext q hq).resolve_left nofun
      refine ⟨(tokens?_quoteIdent t _).trans (hended hopens t), fun hfront => ?_⟩
      exact nomatch hfront (.name t) rfl

theorem Spelled.quotedTokens?_eq {sql : String} {ps : List Piece} (h : Spelled sql ps) :
    quotedTokens? sql = some ((ps.filterMap name?).map nameToken) := by
  unfold quotedTokens?
  rw [h.text]
  exact (tokens?_chars h.calm h.apart).1

theorem Spelled.unquotedChars_eq {sql : String} {ps : List Piece} (h : Spelled sql ps) :
    unquotedChars sql.toList = ps.flatMap unquoted := by
  rw [h.text, unquotedChars_chars h.calm]

example : quotedTokens? "a = 'it''s \\' ?' AND \x60b\x60\x60\x60" =
    some [⟨'\'', "it's \\' ?"⟩, ⟨backtick, "b\x60"⟩] := by decide

end ContentTables
