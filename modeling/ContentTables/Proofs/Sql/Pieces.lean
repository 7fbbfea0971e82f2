import ContentTables.Sql.Statement
import Mathlib.Algebra.GroupWithZero.Nat
import Mathlib.Data.List.Chain
import Mathlib.Data.List.Forall2

/-!
# Statements in pieces

A statement is put together from fixed text, quoted names and placeholders. Fixed text has no quote
and no placeholder in it, and never do two names stand next to each other, so the pieces can be told
apart again in the text.

* `Piece`, `Spelled` : the pieces, and the text that they make;
* `Spelled.append`, `Spelled.plain`, `Spelled.name`, `Spelled.separated` : how texts are put
  together;
* `unquotedChars_chars`, `count_unquoted` : the text outside quotes is what is left without the
  names, and every placeholder in it is one of the pieces.
-/

namespace ContentTables

/-! ## Pieces -/

inductive Piece where
  | plain (text : String)
  | name (s : String)
  | mark
deriving DecidableEq

/-- There is something, and nothing that a reader would take for a quote or a placeholder. -/
def calmText (text : String) : Bool :=
  !text.toList.isEmpty && text.toList.all fun c => !isQuote c && c != '?'

theorem calmText_iff {text : String} : calmText text = true ↔
    text.toList ≠ [] ∧ ∀ c ∈ text.toList, isQuote c = false ∧ c ≠ '?' := by
  simp [calmText]

theorem calmText_append {a b : String} (ha : calmText a = true) (hb : calmText b = true) :
    calmText (a ++ b) = true := by
  rw [calmText_iff] at ha hb ⊢
  rw [String.toList_append]
  refine ⟨fun hnil => ha.1 (List.append_eq_nil_iff.mp hnil).1, ?_⟩
  exact List.forall_mem_append.mpr ⟨ha.2, hb.2⟩

theorem isDigit_of_mem_toString {n : Nat} {c : Char} (h : c ∈ (toString n).toList) :
    c.isDigit = true := by
  have hchars : (toString n).toList = Nat.toDigits 10 n := Nat.toList_repr
  rw [hchars] at h
  exact Nat.isDigit_of_mem_toDigits (by decide) (by decide) h

theorem calmText_toString (n : Nat) : calmText (toString n) = true := by
  have hchars : (toString n).toList = Nat.toDigits 10 n := Nat.toList_repr
  rw [calmText_iff]
  refine ⟨hchars ▸ Nat.toDigits_ne_nil, fun c hc => ?_⟩
  have hdigit := isDigit_of_mem_toString hc
  constructor
  · by_contra hquote
    simp only [isQuote, Bool.not_eq_false, Bool.or_eq_true, beq_iff_eq] at hquote
    rcases hquote with (rfl | rfl) | rfl <;> exact absurd hdigit (by decide)
  · rintro rfl
    exact absurd hdigit (by decide)

namespace Piece

def chars : Piece → List Char
  | .plain text => text.toList
  | .name s => (quoteIdent s).toList
  | .mark => ['?']

/-- What stands outside quotes. -/
def unquoted : Piece → List Char
  | .plain text => text.toList
  | .name _ => []
  | .mark => ['?']

def name? : Piece → Option String
  | .name s => some s
  | _ => none

def isMark : Piece → Bool
  | .mark => true
  | _ => false

/-- The piece without the name that it holds. -/
def blank : Piece → Piece
  | .name _ => .name ""
  | p => p

def Calm : Piece → Prop
  | .plain text => calmText text = true
  | _ => True

/-- One of two neighbours is not a name. -/
def Apart (p q : Piece) : Prop := p.name? = none ∨ q.name? = none

@[simp] theorem names_plain (text : String) (ps : List Piece) :
    (.plain text :: ps).filterMap name? = ps.filterMap name? := rfl

@[simp] theorem names_name (s : String) (ps : List Piece) :
    (.name s :: ps).filterMap name? = s :: ps.filterMap name? := rfl

@[simp] theorem names_mark (ps : List Piece) :
    (.mark :: ps).filterMap name? = ps.filterMap name? := rfl

@[simp] theorem blank_plain (text : String) (ps : List Piece) :
    (.plain text :: ps).map blank = .plain text :: ps.map blank := rfl

@[simp] theorem blank_name (s : String) (ps : List Piece) :
    (.name s :: ps).map blank = .name "" :: ps.map blank := rfl

/-- Without the names there is the same text outside quotes. -/
theorem unquoted_blank (p : Piece) : p.blank.unquoted = p.unquoted := by cases p <;> rfl

/-- The names are all that is lost. -/
theorem eq_of_blank {ps qs : List Piece} (hblank : ps.map blank = qs.map blank)
    (hnames : ps.filterMap name? = qs.filterMap name?) : ps = qs := by
  induction ps generalizing qs with
  | nil => exact (List.map_eq_nil_iff.mp hblank.symm).symm
  | cons p ps ih =>
    cases qs with
    | nil => exact nomatch hblank
    | cons q qs =>
      obtain ⟨hp, hps⟩ := List.cons.inj hblank
      cases p <;> cases q <;> cases hp
      case cons.cons.name.name.refl s t =>
        obtain ⟨rfl, hrest⟩ := List.cons.inj hnames
        rw [ih hps hrest]
      all_goals rw [ih hps hnames]

end Piece

open Piece

/-- The number of placeholders. -/
def markCount (ps : List Piece) : Nat := ps.countP isMark

@[simp] theorem markCount_append (ps qs : List Piece) :
    markCount (ps ++ qs) = markCount ps + markCount qs :=
  List.countP_append

@[simp] theorem markCount_cons (p : Piece) (ps : List Piece) :
    markCount (p :: ps) = markCount ps + if p.isMark then 1 else 0 := List.countP_cons

/-- No name stands at the front. -/
def Opens (ps : List Piece) : Prop := ∀ p ∈ ps.head?, p.name? = none

theorem opens_nil : Opens [] := nofun

theorem opens_plain {text : String} {ps : List Piece} : Opens (.plain text :: ps) := by
  rintro p ⟨⟩
  rfl

theorem Opens.append {ps qs : List Piece} (hps : Opens ps) (hqs : Opens qs) : Opens (ps ++ qs) := by
  cases ps with
  | nil => exact hqs
  | cons p ps => exact hps

/-- The text is made of these pieces. -/
structure Spelled (sql : String) (ps : List Piece) : Prop where
  text : sql.toList = ps.flatMap chars
  calm : ∀ p ∈ ps, p.Calm
  apart : ps.IsChain Apart

namespace Spelled

variable {a b sql : String} {ps qs : List Piece}

theorem nil : Spelled "" [] := ⟨rfl, nofun, .nil⟩

theorem append (ha : Spelled a ps) (hb : Spelled b qs) (h : Opens qs) :
    Spelled (a ++ b) (ps ++ qs) where
  text := by rw [String.toList_append, ha.text, hb.text, List.flatMap_append]
  calm := List.forall_mem_append.mpr ⟨ha.calm, hb.calm⟩
  apart := List.isChain_append.mpr ⟨ha.apart, hb.apart, fun _ _ q hq => Or.inr (h q hq)⟩

theorem plain {text : String} (htext : calmText text = true) (hb : Spelled b qs) :
    Spelled (text ++ b) (.plain text :: qs) where
  text := by rw [String.toList_append, hb.text]; rfl
  calm := List.forall_mem_cons.mpr ⟨htext, hb.calm⟩
  apart := List.isChain_cons.mpr ⟨fun _ _ => Or.inl rfl, hb.apart⟩

theorem name (s : String) (hb : Spelled b qs) (h : Opens qs) :
    Spelled (quoteIdent s ++ b) (.name s :: qs) where
  text := by rw [String.toList_append, hb.text]; rfl
  calm := List.forall_mem_cons.mpr ⟨trivial, hb.calm⟩
  apart := List.isChain_cons.mpr ⟨fun q hq => Or.inr (h q hq), hb.apart⟩

theorem mark (hb : Spelled b qs) : Spelled ("?" ++ b) (.mark :: qs) where
  text := by rw [String.toList_append, hb.text]; rfl
  calm := List.forall_mem_cons.mpr ⟨trivial, hb.calm⟩
  apart := List.isChain_cons.mpr ⟨fun _ _ => Or.inl rfl, hb.apart⟩

theorem of_eq (h : Spelled a ps) (htext : b = a) : Spelled b ps := htext ▸ h

theorem plainEnd {text : String} (htext : calmText text = true) : Spelled text [.plain text] :=
  (plain htext nil).of_eq String.append_empty.symm

theorem nameEnd (s : String) : Spelled (quoteIdent s) [.name s] :=
  (name s nil opens_nil).of_eq String.append_empty.symm

theorem markEnd : Spelled "?" [.mark] := (mark nil).of_eq String.append_empty.symm

theorem eq_empty_iff (h : Spelled sql ps) : sql = "" ↔ ps = [] := by
  constructor
  · rintro rfl
    have hnone : ps.flatMap chars = [] := h.text.symm
    cases ps with
    | nil => rfl
    | cons p ps =>
      have hp : p.chars = [] := (List.append_eq_nil_iff.mp hnone).1
      cases p with
      | plain text => exact absurd hp (calmText_iff.mp (h.calm _ List.mem_cons_self)).1
      | name s =>
        rw [chars, quoteIdent, String.toList_ofList] at hp
        exact absurd hp (List.cons_ne_nil _ _)
      | mark => exact absurd hp (List.cons_ne_nil _ _)
  · rintro rfl
    exact String.toList_inj.mp h.text

end Spelled

/-! ## Lists of texts -/

/-- The pieces with the same text between any two of them. -/
def separated (separator : String) (pss : List (List Piece)) : List Piece :=
  [Piece.plain separator].intercalate pss

section Separated
variable {separator : String}

@[simp] theorem separated_nil : separated separator [] = [] := rfl

@[simp] theorem separated_singleton (ps : List Piece) : separated separator [ps] = ps := by
  simp [separated]

@[simp] theorem separated_cons_cons (ps qs : List Piece) (pss : List (List Piece)) :
    separated separator (ps :: qs :: pss) =
      ps ++ .plain separator :: separated separator (qs :: pss) := by
  simp [separated]

theorem Spelled.separated (hseparator : calmText separator = true) {texts : List String}
    {pss : List (List Piece)} (h : List.Forall₂ Spelled texts pss) :
    Spelled (separator.intercalate texts) (separated separator pss) := by
  induction h with
  | nil => exact .nil
  | @cons text ps texts pss htext hrest ih =>
    cases hrest with
    | nil =>
      rw [separated_singleton]
      exact htext.of_eq String.intercalate_singleton
    | cons _ _ =>
      rw [String.intercalate_cons_cons, String.append_assoc, separated_cons_cons]
      exact htext.append (Spelled.plain hseparator ih) opens_plain

/-- One text for each item. -/
theorem spelled_each {ι : Type} {text : ι → String} {pieces : ι → List Piece} {items : List ι}
    (h : ∀ i ∈ items, Spelled (text i) (pieces i)) :
    List.Forall₂ Spelled (items.map text) (items.map pieces) := by
  rw [List.forall₂_map_left_iff, List.forall₂_map_right_iff, List.forall₂_same]
  exact h

theorem filterMap_separated (pss : List (List Piece)) :
    (separated separator pss).filterMap name? = pss.flatMap (·.filterMap name?) := by
  induction pss with
  | nil => rfl
  | cons ps pss ih =>
    cases pss with
    | nil => simp
    | cons qs pss =>
      rw [separated_cons_cons, List.filterMap_append, List.filterMap_cons_none rfl, ih]
      rfl

theorem map_blank_separated (pss : List (List Piece)) :
    (separated separator pss).map blank = separated separator (pss.map (·.map blank)) := by
  induction pss with
  | nil => rfl
  | cons ps pss ih =>
    cases pss with
    | nil => simp
    | cons qs pss =>
      rw [separated_cons_cons, List.map_append, List.map_cons, ih]
      exact (separated_cons_cons ..).symm

theorem markCount_separated (pss : List (List Piece)) :
    markCount (separated separator pss) = (pss.map markCount).sum := by
  induction pss with
  | nil => rfl
  | cons ps pss ih =>
    cases pss with
    | nil => simp
    | cons qs pss =>
      rw [separated_cons_cons, markCount_append, markCount_cons, ih]
      rfl

end Separated

/-! ## Outside quotes -/

def unquotedFrom (state : ScanState) (cs : List Char) : List Char :=
  ((marksFrom state cs).filter fun (c, state) => state == .outside && !isQuote c).map Prod.fst

theorem unquotedFrom_append (state : ScanState) (cs ds : List Char) :
    unquotedFrom state (cs ++ ds) = unquotedFrom state cs ++ unquotedFrom (state.run cs) ds := by
  simp only [unquotedFrom, marksFrom_append, List.filter_append, List.map_append]

/-- Text without quotes is outside of them. -/
theorem unquotedFrom_outside {cs : List Char} (h : ∀ c ∈ cs, isQuote c = false) :
    unquotedFrom .outside cs = cs ∧ ScanState.outside.run cs = .outside := by
  induction cs with
  | nil => exact ⟨rfl, rfl⟩
  | cons c cs ih =>
    obtain ⟨hc, hcs⟩ := List.forall_mem_cons.mp h
    have hstep : ScanState.outside.step c = .outside := by simp [ScanState.step, hc]
    obtain ⟨hchars, hrun⟩ := ih hcs
    refine ⟨?_, by rw [ScanState.run_cons, hstep, hrun]⟩
    rw [unquotedFrom, marksFrom, hstep, List.filter_cons_of_pos (by simp [hc]), List.map_cons]
    exact congrArg _ hchars

theorem unquotedFrom_doubled (cs : List Char) :
    unquotedFrom (.inside backtick)
      (cs.flatMap fun c => if c == backtick then [c, c] else [c]) = [] := by
  induction cs with
  | nil => rfl
  | cons c cs ih =>
    rw [List.flatMap_cons, unquotedFrom_append]
    by_cases hc : c = backtick
    · subst hc
      exact ih
    · have hstep : (ScanState.inside backtick).step c = .inside backtick := by
        simp [ScanState.step, hc]
      have hhere : unquotedFrom (.inside backtick) [c] = [] := rfl
      rw [if_neg (by simpa using hc), ScanState.run_cons, hstep, ScanState.run_nil, ih, hhere]
      rfl

theorem unquotedFrom_quoteIdent (name : String) :
    unquotedFrom .outside (quoteIdent name).toList = [] := by
  have hquote : unquotedFrom .outside [backtick] = [] ∧
      ScanState.outside.run [backtick] = .inside backtick := ⟨rfl, rfl⟩
  have hend : unquotedFrom (.inside backtick) [backtick] = [] := rfl
  rw [quoteIdent, String.toList_ofList, quotedBy, ← List.singleton_append, List.append_assoc,
    unquotedFrom_append, unquotedFrom_append, hquote.1, hquote.2, unquotedFrom_doubled,
    run_doubled_backticks, hend]
  rfl

theorem Piece.unquotedFrom_chars {p : Piece} (hp : p.Calm) :
    unquotedFrom .outside p.chars = p.unquoted ∧ ScanState.outside.run p.chars = .outside := by
  cases p with
  | plain text => exact unquotedFrom_outside fun c hc => ((calmText_iff.mp hp).2 c hc).1
  | name s => exact ⟨unquotedFrom_quoteIdent s, run_quoteIdent s⟩
  | mark => exact ⟨rfl, rfl⟩

theorem unquotedChars_chars {ps : List Piece} (h : ∀ p ∈ ps, p.Calm) :
    unquotedChars (ps.flatMap chars) = ps.flatMap unquoted := by
  show unquotedFrom .outside (ps.flatMap chars) = _
  induction ps with
  | nil => rfl
  | cons p ps ih =>
    obtain ⟨hp, hps⟩ := List.forall_mem_cons.mp h
    obtain ⟨hchars, hrun⟩ := unquotedFrom_chars hp
    rw [List.flatMap_cons, unquotedFrom_append, hchars, hrun, ih hps, List.flatMap_cons]

/-- Every placeholder outside quotes is one of the pieces. -/
theorem count_unquoted {ps : List Piece} (h : ∀ p ∈ ps, p.Calm) :
    (ps.flatMap unquoted).count '?' = markCount ps := by
  induction ps with
  | nil => rfl
  | cons p ps ih =>
    obtain ⟨hp, hps⟩ := List.forall_mem_cons.mp h
    have hone : p.unquoted.count '?' = if p.isMark then 1 else 0 := by
      cases p with
      | plain text =>
        exact List.count_eq_zero.mpr fun hmem => ((calmText_iff.mp hp).2 _ hmem).2 rfl
      | name s => rfl
      | mark => rfl
    rw [List.flatMap_cons, List.count_append, ih hps, hone, markCount_cons, Nat.add_comm]

end ContentTables
