import ContentTables.Proofs.Sql.Pieces

/-!
# Expanding a statement in pieces

* `Aligned` : pieces with one parameter for each placeholder, in order;
* `fillPieces`, `filled` : what a parameter makes of its placeholder, and the pieces of an expanded
  statement;
* `Aligned.expand` : expanding replaces the placeholders of the statement and leaves the rest, names
  with whatever they hold included;
* `Aligned.markCount_filled` : there are as many parameters as placeholders again;
* `fillMarks`, `Aligned.unquoted_filled` : what becomes of the text outside quotes.
-/

namespace ContentTables

open Piece Statement

/-! ## One parameter for each placeholder -/

inductive Aligned : List Piece → List Json → Prop
  | nil : Aligned [] []
  | mark {ps vs} (v : Json) (h : Aligned ps vs) : Aligned (.mark :: ps) (v :: vs)
  | other {p ps vs} (hp : p.isMark = false) (h : Aligned ps vs) : Aligned (p :: ps) vs

namespace Aligned

variable {ps qs : List Piece} {vs ws : List Json}

theorem plain (text : String) (h : Aligned ps vs) : Aligned (.plain text :: ps) vs := .other rfl h

theorem name (s : String) (h : Aligned ps vs) : Aligned (.name s :: ps) vs := .other rfl h

theorem eq_nil (h : Aligned [] vs) : vs = [] := by
  cases h
  rfl

theorem append (h : Aligned ps vs) (h' : Aligned qs ws) : Aligned (ps ++ qs) (vs ++ ws) := by
  induction h with
  | nil => exact h'
  | mark v _ ih => exact .mark v ih
  | other hp _ ih => exact .other hp ih

theorem separated {separator : String} {pss : List (List Piece)} {vss : List (List Json)}
    (h : List.Forall₂ Aligned pss vss) :
    Aligned (ContentTables.separated separator pss) vss.flatten := by
  induction h with
  | nil => exact .nil
  | @cons ps vs pss vss hps hrest ih =>
    cases hrest with
    | nil => simpa using hps
    | cons _ _ =>
      rw [separated_cons_cons]
      exact hps.append (ih.plain separator)

end Aligned

/-! ## Placeholders outside quotes -/

/-- Text without placeholders outside quotes is passed over. -/
theorem expandFrom_append {state : ScanState} {cs : List Char} (h : '?' ∉ unquotedFrom state cs)
    (rest : List Char) (params : List Json) :
    expandFrom state (cs ++ rest) params =
      (cs ++ (expandFrom (state.run cs) rest params).1,
        (expandFrom (state.run cs) rest params).2) := by
  induction cs generalizing state with
  | nil => rfl
  | cons c cs ih =>
    have hhere : ¬ (state = .outside ∧ c = '?') := by
      rintro ⟨rfl, rfl⟩
      exact h List.mem_cons_self
    have hrest : '?' ∉ unquotedFrom (state.step c) cs := by
      intro hmem
      rw [← List.singleton_append, unquotedFrom_append] at h
      exact h (List.mem_append_right _ hmem)
    rw [List.cons_append, expandFrom.eq_def]
    simp only [if_neg hhere, ih hrest]
    rfl

theorem not_mark_mem_unquoted {p : Piece} (hcalm : p.Calm) (hp : p.isMark = false) :
    '?' ∉ p.unquoted := by
  cases p with
  | mark => exact nomatch hp
  | plain text => exact fun hmem => ((calmText_iff.mp hcalm).2 _ hmem).2 rfl
  | name s => exact List.not_mem_nil

/-- A piece that is no placeholder is passed over. -/
theorem expandFrom_chars_append {p : Piece} (hcalm : p.Calm) (hp : p.isMark = false)
    (rest : List Char) (params : List Json) : expandFrom .outside (p.chars ++ rest) params =
      (p.chars ++ (expandFrom .outside rest params).1, (expandFrom .outside rest params).2) := by
  obtain ⟨hchars, hrun⟩ := unquotedFrom_chars hcalm
  have hnone : '?' ∉ unquotedFrom .outside p.chars := by
    rw [hchars]
    exact not_mark_mem_unquoted hcalm hp
  rw [expandFrom_append hnone, hrun]

/-! ## Filling in -/

/-- What a placeholder becomes. -/
def fillPieces : Json → List Piece
  | .arr [] => [.plain "NULL"]
  | .arr (v :: vs) => separated ", " ((v :: vs).map fun _ => [.mark])
  | _ => [.mark]

/-- Every placeholder gives way to what its parameter makes of it. -/
def filled : List Piece → List Json → List Piece
  | [], _ => []
  | .mark :: ps, v :: vs => fillPieces v ++ filled ps vs
  | p :: ps, vs => p :: filled ps vs

/-- The same with the text outside quotes and the texts that come in. -/
def fillMarks : List Char → List String → List Char
  | [], _ => []
  | c :: cs, texts =>
    if c = '?' then
      match texts with
      | [] => c :: fillMarks cs []
      | text :: texts => text.toList ++ fillMarks cs texts
    else c :: fillMarks cs texts

theorem spelled_placeholders {α : Type} (items : List α) :
    Spelled (placeholders items) (separated ", " (items.map fun _ => [.mark])) :=
  Spelled.separated (by decide) (spelled_each fun _ _ => .markEnd)

theorem spelled_fill (v : Json) : Spelled (fill v).1 (fillPieces v) := by
  cases v with
  | arr items =>
    cases items with
    | nil => exact .plainEnd (by decide)
    | cons v vs => exact spelled_placeholders (v :: vs)
  | _ => exact .markEnd

theorem markCount_fillPieces (v : Json) : markCount (fillPieces v) = (fill v).2.length := by
  cases v with
  | arr items =>
    cases items with
    | nil => rfl
    | cons v vs =>
      have hone : (v :: vs).map (markCount ∘ fun _ => [Piece.mark]) =
          (v :: vs).map fun _ => 1 := rfl
      show markCount (separated ", " ((v :: vs).map fun _ => [.mark])) = (v :: vs).length
      rw [markCount_separated, List.map_map, hone, List.map_const', List.sum_replicate_nat,
        Nat.mul_one]
  | _ => rfl

theorem names_fillPieces (v : Json) : (fillPieces v).filterMap name? = [] := by
  cases v with
  | arr items =>
    cases items with
    | nil => rfl
    | cons v vs =>
      show (separated ", " ((v :: vs).map fun _ => [.mark])).filterMap name? = []
      rw [filterMap_separated, List.flatMap_eq_nil_iff]
      intro ps hps
      obtain ⟨_, _, rfl⟩ := List.mem_map.mp hps
      rfl
  | _ => rfl

theorem unquoted_fillPieces (v : Json) : (fillPieces v).flatMap unquoted = (fill v).1.toList := by
  rw [(spelled_fill v).text]
  refine List.flatMap_congr fun p hp => ?_
  have hnone := List.filterMap_eq_nil_iff.mp (names_fillPieces v) p hp
  cases p with
  | name s => exact nomatch hnone
  | _ => rfl

theorem filled_cons {p : Piece} (hp : p.isMark = false) (ps : List Piece) (vs : List Json) :
    filled (p :: ps) vs = p :: filled ps vs := by
  cases p with
  | mark => exact nomatch hp
  | plain text => cases vs <;> rfl
  | name s => cases vs <;> rfl

theorem fillMarks_append {cs : List Char} (h : '?' ∉ cs) (rest : List Char) (texts : List String) :
    fillMarks (cs ++ rest) texts = cs ++ fillMarks rest texts := by
  induction cs with
  | nil => rfl
  | cons c cs ih =>
    obtain ⟨hc, hcs⟩ := not_or.mp (mt List.mem_cons.mpr h)
    rw [List.cons_append, fillMarks.eq_def]
    simp only [if_neg (Ne.symm hc), ih hcs]
    rfl

namespace Aligned

variable {ps qs : List Piece} {vs ws : List Json}

theorem filled_append (h : Aligned ps vs) :
    filled (ps ++ qs) (vs ++ ws) = filled ps vs ++ filled qs ws := by
  induction h with
  | nil => rfl
  | mark v _ ih => rw [List.cons_append, List.cons_append, filled, filled, ih, List.append_assoc]
  | other hp _ ih => rw [List.cons_append, filled_cons hp, filled_cons hp, ih, List.cons_append]

theorem markCount_eq (h : Aligned ps vs) : markCount ps = vs.length := by
  induction h with
  | nil => rfl
  | mark v _ ih => rw [markCount_cons, ih, List.length_cons]; rfl
  | other hp _ ih => rw [markCount_cons, ih, if_neg (by simp [hp]), Nat.add_zero]

theorem expandFrom_chars (h : Aligned ps vs) (hcalm : ∀ p ∈ ps, p.Calm) :
    expandFrom .outside (ps.flatMap chars) vs =
      ((filled ps vs).flatMap chars, vs.flatMap fun v => (fill v).2) := by
  induction h with
  | nil => rfl
  | @mark ps vs v _ ih =>
    have hstep : expandFrom .outside ((Piece.mark :: ps).flatMap chars) (v :: vs) =
        ((fill v).1.toList ++ (expandFrom .outside (ps.flatMap chars) vs).1,
          (fill v).2 ++ (expandFrom .outside (ps.flatMap chars) vs).2) := rfl
    rw [hstep, ih (List.forall_mem_cons.mp hcalm).2, (spelled_fill v).text, filled,
      List.flatMap_append]
    rfl
  | @other p ps vs hp _ ih =>
    obtain ⟨hpcalm, hpscalm⟩ := List.forall_mem_cons.mp hcalm
    rw [List.flatMap_cons, expandFrom_chars_append hpcalm hp, ih hpscalm, filled_cons hp,
      List.flatMap_cons]

/-- Without arrays there is nothing to do. -/
theorem filled_of_noArray (h : Aligned ps vs) (hvs : ∀ v ∈ vs, v.isArray = false) :
    filled ps vs = ps ∧ (vs.flatMap fun v => (fill v).2) = vs := by
  induction h with
  | nil => exact ⟨rfl, rfl⟩
  | @mark ps vs v _ ih =>
    obtain ⟨hv, hrest⟩ := List.forall_mem_cons.mp hvs
    obtain ⟨hps, hparams⟩ := ih hrest
    rw [filled, List.flatMap_cons, hps, hparams]
    cases v with
    | arr items => exact nomatch hv
    | _ => exact ⟨rfl, rfl⟩
  | other hp _ ih =>
    obtain ⟨hps, hparams⟩ := ih hvs
    exact ⟨(filled_cons hp ..).trans (congrArg _ hps), hparams⟩

/-- Whether or not the statement has to be scanned. -/
theorem expand {s : Statement} (h : Aligned ps s.params) (hs : Spelled s.sql ps) :
    s.expand.sql.toList = (filled ps s.params).flatMap chars ∧
      s.expand.params = s.params.flatMap fun v => (fill v).2 := by
  unfold Statement.expand
  split
  · rw [hs.text, h.expandFrom_chars hs.calm]
    exact ⟨String.toList_ofList, rfl⟩
  · rename_i hnone
    have hvs : ∀ v ∈ s.params, v.isArray = false := by simpa using hnone
    obtain ⟨hps, hparams⟩ := h.filled_of_noArray hvs
    rw [hps, hparams]
    exact ⟨hs.text, rfl⟩

theorem calm_filled (h : Aligned ps vs) (hcalm : ∀ p ∈ ps, p.Calm) :
    ∀ p ∈ filled ps vs, p.Calm := by
  induction h with
  | nil => exact nofun
  | mark v _ ih =>
    exact List.forall_mem_append.mpr ⟨(spelled_fill v).calm, ih (List.forall_mem_cons.mp hcalm).2⟩
  | other hp _ ih =>
    obtain ⟨hpcalm, hpscalm⟩ := List.forall_mem_cons.mp hcalm
    rw [filled_cons hp]
    exact List.forall_mem_cons.mpr ⟨hpcalm, ih hpscalm⟩

theorem markCount_filled (h : Aligned ps vs) :
    markCount (filled ps vs) = (vs.flatMap fun v => (fill v).2).length := by
  induction h with
  | nil => rfl
  | mark v _ ih =>
    rw [filled, markCount_append, List.flatMap_cons, List.length_append, markCount_fillPieces, ih]
  | other hp _ ih => rw [filled_cons hp, markCount_cons, if_neg (by simp [hp]), ih, Nat.add_zero]

theorem unquoted_filled (h : Aligned ps vs) (hcalm : ∀ p ∈ ps, p.Calm) :
    (filled ps vs).flatMap unquoted =
      fillMarks (ps.flatMap unquoted) (vs.map fun v => (fill v).1) := by
  induction h with
  | nil => rfl
  | @mark ps vs v _ ih =>
    rw [filled, List.flatMap_append, unquoted_fillPieces, ih (List.forall_mem_cons.mp hcalm).2]
    rfl
  | @other p ps vs hp _ ih =>
    obtain ⟨hpcalm, hpscalm⟩ := List.forall_mem_cons.mp hcalm
    rw [filled_cons hp, List.flatMap_cons, List.flatMap_cons,
      fillMarks_append (not_mark_mem_unquoted hpcalm hp), ih hpscalm]

end Aligned

end ContentTables
