import ContentTables.Condition.Canonical
import ContentTables.Proofs.Condition.Meaning
import ContentTables.Proofs.Cache.KeyText
import Mathlib.Data.List.Perm.Basic

/-!
# Conditions up to the order of their parts

* `Operand.SameText`, `Predicate.Reordered`, `Condition.Reordered` : operands with the same texts,
  and trees that differ only in the order of the parts inside each combination;
* `Condition.Reordered.value_eq` : such trees have one truth value;
* `Condition.sortedFields_canonical` : the canonical form lists its fields by name already;
* `Condition.Reordered.keyText_eq`, `Condition.reordered_of_keyText` : two trees have one key
  exactly if they differ in the order of the parts only.
-/

namespace ContentTables

inductive Operand.SameText : Operand → Operand → Prop
  | scalar {v w : Json} (h : v.text = w.text) : SameText (.scalar v) (.scalar w)
  | list {vs ws : List Json} (h : vs.map Json.text = ws.map Json.text) :
    SameText (.list vs) (.list ws)
  | range {low high low' high' : Json} (hlow : low.text = low'.text) (hhigh : high.text = high'.text) :
    SameText (.range low high) (.range low' high')

/-- The parts of each combination are permuted, and the permuted parts correspond one by one. -/
inductive Predicate.Reordered : Predicate → Predicate → Prop
  | field {column : String} {operator : Operator} {operand operand' : Operand}
    (h : operand.SameText operand') :
    Reordered (.field column operator operand) (.field column operator operand')
  | group {ps ps' qs : List Predicate} (hperm : ps.Perm ps') (hparts : List.Forall₂ Reordered ps' qs) :
    Reordered (.group ps) (.group qs)
  | all {ps ps' qs : List Predicate} (hperm : ps.Perm ps') (hparts : List.Forall₂ Reordered ps' qs) :
    Reordered (.all ps) (.all qs)
  | any {ps ps' qs : List Predicate} (hperm : ps.Perm ps') (hparts : List.Forall₂ Reordered ps' qs) :
    Reordered (.any ps) (.any qs)

def Condition.Reordered (c d : Condition) : Prop :=
  ∃ ps, c.predicates.Perm ps ∧ List.Forall₂ Predicate.Reordered ps d.predicates

/-! ## Truth values -/

/-- The truth of a comparison depends on the texts of its operand only. -/
def ReadsTexts {τ : Type} (truth : Comparison → τ) : Prop :=
  ∀ table column operator operand operand', Operand.SameText operand operand' →
    truth ⟨table, column, operator, operand⟩ = truth ⟨table, column, operator, operand'⟩

section Value
variable {τ : Type} [Lattice τ] [BoundedOrder τ] {truth : Comparison → τ} (table : Option String)

namespace Predicate

/-- What corresponding parts share, the lists share up to the order. -/
theorem map_perm_of_reordered {α : Type} {f : Predicate → α} {ps ps' qs : List Predicate}
    (hperm : ps.Perm ps') (hparts : List.Forall₂ Reordered ps' qs)
    (heach : ∀ p ∈ ps, ∀ {q}, p.Reordered q → f p = f q) : (ps.map f).Perm (qs.map f) := by
  refine (hperm.map f).trans (List.Perm.of_eq ?_)
  have heach' : ∀ p ∈ ps', ∀ {q}, p.Reordered q → f p = f q :=
    fun p hp => heach p (hperm.mem_iff.mpr hp)
  clear hperm heach
  induction hparts with
  | nil => rfl
  | cons hpq _ ih =>
    rw [List.map_cons, List.map_cons, heach' _ List.mem_cons_self hpq,
      ih fun p hp => heach' p (List.mem_cons_of_mem _ hp)]

theorem values_perm {ps ps' qs : List Predicate} (hperm : ps.Perm ps')
    (hparts : List.Forall₂ Reordered ps' qs)
    (heach : ∀ p ∈ ps, ∀ {q}, p.Reordered q → p.value truth table = q.value truth table) :
    (values truth table ps).Perm (values truth table qs) := by
  rw [values_eq_map, values_eq_map]
  exact map_perm_of_reordered hperm hparts heach

theorem Reordered.value_eq (htruth : ReadsTexts truth) {p q : Predicate} (h : p.Reordered q) :
    p.value truth table = q.value truth table := by
  induction p using partsInduction generalizing q with
  | field column operator operand =>
    cases h with
    | field h => exact htruth _ _ _ _ _ h
  | group ps ih =>
    cases h with
    | group hperm hparts => exact allOf_perm (values_perm table hperm hparts ih)
  | all ps ih =>
    cases h with
    | all hperm hparts => exact allOf_perm (values_perm table hperm hparts ih)
  | any ps ih =>
    cases h with
    | any hperm hparts => exact anyOf_perm (values_perm table hperm hparts ih)

end Predicate

theorem Condition.Reordered.value_eq (htruth : ReadsTexts truth) {c d : Condition}
    (h : c.Reordered d) : c.value truth table = d.value truth table := by
  obtain ⟨ps, hperm, hparts⟩ := h
  exact allOf_perm (Predicate.values_perm table hperm hparts fun _ _ _ h => h.value_eq table htruth)

end Value

/-! ## Canonical forms -/

namespace Predicate

theorem canonicals_eq_map (ps : List Predicate) : canonicals ps = ps.map canonical := by
  induction ps with
  | nil => rfl
  | cons p ps ih => rw [canonicals, ih, List.map_cons]

theorem sortedFields_operand {operand : Operand} (h : ∀ v ∈ operand.values, v.isScalar = true) :
    operand.json.sortedFields = operand.json := by
  have heach : ∀ v ∈ operand.values, v.sortedFields = v := fun v hv => sortedFields_of_isScalar (h v hv)
  cases operand with
  | scalar v => exact heach v List.mem_cons_self
  | list vs => exact sortedFields_arr_eq_self heach
  | range low high => exact sortedFields_arr_eq_self heach

/-- A single field around sorted parts. -/
theorem sortedFields_parts {name : String} {vs : List Json} (h : ∀ v ∈ vs, v.sortedFields = v) :
    (Json.obj [(name, .arr (Json.sortedByText vs))]).sortedFields =
      .obj [(name, .arr (Json.sortedByText vs))] := by
  have hsorted : (Json.arr (Json.sortedByText vs)).sortedFields = .arr (Json.sortedByText vs) :=
    sortedFields_arr_eq_self fun v hv => h v (List.mem_mergeSort.mp hv)
  simp only [Json.sortedFields, Json.sortedFieldsEntries, sortedByName, List.mergeSort_singleton]
  rw [← Json.sortedFields, hsorted]

theorem sortedFields_canonicals {ps : List Predicate}
    (h : everyFieldOf Operand.wellShaped ps = true)
    (heach : ∀ p ∈ ps, p.everyField Operand.wellShaped = true →
      p.canonical.sortedFields = p.canonical) :
    ∀ v ∈ canonicals ps, v.sortedFields = v := by
  intro v hv
  rw [canonicals_eq_map] at hv
  obtain ⟨p, hp, rfl⟩ := List.mem_map.mp hv
  exact heach p hp (everyFieldOf_iff.mp h p hp)

theorem sortedFields_canonical {p : Predicate} (h : p.everyField Operand.wellShaped = true) :
    p.canonical.sortedFields = p.canonical := by
  induction p using partsInduction with
  | field column operator operand =>
    have hscalars := List.all_eq_true.mp (Bool.and_eq_true_iff.mp h).2
    have hnames : List.Pairwise (fun f g => textLe f.1 g.1 = true)
        [("field", Json.str column), ("op", .str operator.placeholder), ("value", operand.json)] := by
      refine .cons ?_ (.cons ?_ (List.pairwise_singleton _ _))
      · rw [List.forall_mem_cons, List.forall_mem_singleton]
        exact ⟨(by decide : textLe "field" "op" = true), (by decide : textLe "field" "value" = true)⟩
      · rw [List.forall_mem_singleton]
        exact (by decide : textLe "op" "value" = true)
    simp only [canonical, Json.sortedFields, Json.sortedFieldsEntries, sortedFields_operand hscalars]
    rw [sortedByName, List.mergeSort_of_pairwise hnames]
  | group ps ih => exact sortedFields_parts (sortedFields_canonicals h ih)
  | all ps ih => exact sortedFields_parts (sortedFields_canonicals h ih)
  | any ps ih => exact sortedFields_parts (sortedFields_canonicals h ih)

theorem placeholder_inj {a b : Operator} (h : a.placeholder = b.placeholder) : a = b := by
  revert h
  cases a <;> cases b <;> decide

theorem sameText_of_json {operator : Operator} {a b : Operand} (ha : a.wellShaped operator = true)
    (hb : b.wellShaped operator = true) (h : a.json.chars = b.json.chars) : a.SameText b := by
  have hfit := (Bool.and_eq_true_iff.mp ha).1
  have hfit' := (Bool.and_eq_true_iff.mp hb).1
  have htexts : ∀ {vs ws : List Json}, (Json.arr vs).chars = (Json.arr ws).chars →
      vs.map Json.text = ws.map Json.text := fun h => Json.map_text_eq_iff.mpr (Json.chars_arr_inj h)
  cases a <;> cases b
  case scalar.scalar => exact .scalar (congrArg String.ofList h)
  case list.list => exact .list (htexts h)
  case range.range =>
    obtain ⟨hlow, hhigh⟩ := List.cons.inj (htexts h)
    exact .range hlow (List.cons.inj hhigh).1
  -- operands of two shapes do not fit one operator
  all_goals
    exfalso
    revert hfit hfit'
    cases operator <;> simp [Operand.fits, Operator.takesList]

theorem chars_json_of_sameText {a b : Operand} (h : a.SameText b) : a.json.chars = b.json.chars := by
  cases h with
  | scalar h => exact String.ofList_injective h
  | list h => exact Json.chars_arr_congr (Json.map_text_eq_iff.mp h)
  | range hlow hhigh =>
    refine Json.chars_arr_congr (Json.map_text_eq_iff.mp ?_)
    rw [List.map_cons, List.map_cons, List.map_cons, List.map_cons, hlow, hhigh]

/-- Texts are sorted in one way only. -/
theorem sortedByText_congr {vs ws : List Json} (h : (vs.map Json.text).Perm (ws.map Json.text)) :
    (Json.sortedByText vs).map Json.text = (Json.sortedByText ws).map Json.text := by
  have hperm : ∀ us : List Json, ((Json.sortedByText us).map Json.text).Perm (us.map Json.text) :=
    fun us => (List.mergeSort_perm us fun v w => textLe v.text w.text).map Json.text
  have hsorted : ∀ us : List Json, ((Json.sortedByText us).map Json.text).Pairwise (· ≤ ·) := by
    intro us
    refine List.pairwise_map.mpr (List.Pairwise.imp of_decide_eq_true (List.pairwise_mergeSort ?_ ?_ us))
    · intro a b c hab hbc
      exact decide_eq_true (String.le_trans (of_decide_eq_true hab) (of_decide_eq_true hbc))
    · intro a b
      simp only [Bool.or_eq_true, decide_eq_true_iff]
      exact String.le_total _ _
  exact ((hperm vs).trans (h.trans (hperm ws).symm)).eq_of_pairwise
    (fun _ _ _ _ => String.le_antisymm) (hsorted vs) (hsorted ws)

theorem chars_sortedParts {ps ps' qs : List Predicate} (hperm : ps.Perm ps')
    (hparts : List.Forall₂ Reordered ps' qs)
    (heach : ∀ p ∈ ps, ∀ {q}, p.Reordered q → p.canonical.chars = q.canonical.chars) :
    (Json.arr (Json.sortedByText (canonicals ps))).chars =
      (Json.arr (Json.sortedByText (canonicals qs))).chars := by
  refine Json.chars_arr_congr (Json.map_text_eq_iff.mp (sortedByText_congr ?_))
  rw [canonicals_eq_map, canonicals_eq_map, List.map_map, List.map_map]
  exact map_perm_of_reordered hperm hparts fun p hp _ h => congrArg String.ofList (heach p hp h)

theorem Reordered.chars_canonical {p q : Predicate} (h : p.Reordered q) :
    p.canonical.chars = q.canonical.chars := by
  have hfield : ∀ {name : String} {v w : Json}, v.chars = w.chars →
      (Json.obj [(name, v)]).chars = (Json.obj [(name, w)]).chars := by
    intro name v w h
    refine Json.chars_obj_congr ?_
    rw [List.map_singleton, List.map_singleton, Json.fieldText, Json.fieldText, h]
  induction p using partsInduction generalizing q with
  | field column operator operand =>
    cases h with
    | field h =>
      refine Json.chars_obj_congr ?_
      simp only [List.map_cons, List.map_nil, Json.fieldText, chars_json_of_sameText h]
  | group ps ih =>
    cases h with
    | group hperm hparts => exact hfield (chars_sortedParts hperm hparts ih)
  | all ps ih =>
    cases h with
    | all hperm hparts => exact hfield (chars_sortedParts hperm hparts ih)
  | any ps ih =>
    cases h with
    | any hperm hparts => exact hfield (chars_sortedParts hperm hparts ih)

/-- Equal sorted texts pair the parts off. -/
theorem forall₂_of_sortedByText {ps qs : List Predicate}
    (h : (Json.arr (Json.sortedByText (canonicals ps))).chars =
      (Json.arr (Json.sortedByText (canonicals qs))).chars) :
    ∃ ps', ps.Perm ps' ∧ List.Forall₂ (fun p q => p.canonical.chars = q.canonical.chars) ps' qs := by
  have hsorted : ∀ rs : List Predicate, ((Json.sortedByText (canonicals rs)).map Json.chars).Perm
      (rs.map fun r => r.canonical.chars) := by
    intro rs
    have hperm := (List.mergeSort_perm (canonicals rs) fun v w => textLe v.text w.text).map Json.chars
    rw [canonicals_eq_map, List.map_map] at hperm
    rw [canonicals_eq_map]
    exact hperm
  have hperm := (hsorted ps).symm.trans
    ((List.Perm.of_eq (Json.chars_arr_inj h)).trans (hsorted qs))
  have hcomp : Relation.Comp (List.Forall₂ fun (p : Predicate) t => p.canonical.chars = t) List.Perm
      ps (qs.map fun q => q.canonical.chars) :=
    ⟨_, List.forall₂_map_right_iff.mpr (List.forall₂_same.mpr fun _ _ => rfl), hperm⟩
  rw [List.forall₂_comp_perm_eq_perm_comp_forall₂] at hcomp
  obtain ⟨ps', hps', hparts⟩ := hcomp
  exact ⟨ps', hps', List.forall₂_map_right_iff.mp hparts⟩

theorem reordered_parts {ps qs : List Predicate} (hps : everyFieldOf Operand.wellShaped ps = true)
    (hqs : everyFieldOf Operand.wellShaped qs = true)
    (heach : ∀ p ∈ ps, ∀ {q : Predicate}, p.everyField Operand.wellShaped = true →
      q.everyField Operand.wellShaped = true → p.canonical.chars = q.canonical.chars → p.Reordered q)
    (h : (Json.arr (Json.sortedByText (canonicals ps))).chars =
      (Json.arr (Json.sortedByText (canonicals qs))).chars) :
    ∃ ps', ps.Perm ps' ∧ List.Forall₂ Reordered ps' qs := by
  obtain ⟨ps', hperm, hparts⟩ := forall₂_of_sortedByText h
  refine ⟨ps', hperm, List.forall₂_iff_get.mpr ⟨hparts.length_eq, ?_⟩⟩
  intro i hi hi'
  have hp : ps'.get ⟨i, hi⟩ ∈ ps := hperm.mem_iff.mpr (List.get_mem ..)
  exact heach _ hp (everyFieldOf_iff.mp hps _ hp) (everyFieldOf_iff.mp hqs _ (List.get_mem ..))
    (hparts.get hi hi')

theorem canonical_field_ne {name column : String} {v : Json} {operator : Operator} {operand : Operand} :
    (Json.obj [(name, v)]).chars ≠ (field column operator operand).canonical.chars := by
  intro h
  rw [canonical] at h
  exact nomatch congrArg List.length (Json.chars_obj_inj h)

/-- The name of a single field and the text of what it holds. -/
theorem parts_of_canonical {m n : String} {v w : Json}
    (h : (Json.obj [(m, v)]).chars = (Json.obj [(n, w)]).chars) : m = n ∧ v.chars = w.chars :=
  Prod.mk.inj (List.cons.inj (Json.chars_obj_inj h)).1

theorem reordered_of_canonical {p q : Predicate} (hp : p.everyField Operand.wellShaped = true)
    (hq : q.everyField Operand.wellShaped = true) (h : p.canonical.chars = q.canonical.chars) :
    p.Reordered q := by
  induction p using partsInduction generalizing q with
  | field column operator operand =>
    cases q with
    | field column' operator' operand' =>
      rw [canonical, canonical] at h
      obtain ⟨hcolumn, hrest⟩ := List.cons.inj (Json.chars_obj_inj h)
      obtain ⟨hoperator, hrest⟩ := List.cons.inj hrest
      obtain ⟨hoperand, -⟩ := List.cons.inj hrest
      obtain rfl := Json.chars_str_inj (Prod.mk.inj hcolumn).2
      obtain rfl := placeholder_inj (Json.chars_str_inj (Prod.mk.inj hoperator).2)
      exact .field (sameText_of_json hp hq (Prod.mk.inj hoperand).2)
    | _ => exact absurd h.symm canonical_field_ne
  | group ps ih =>
    cases q with
    | field => exact absurd h canonical_field_ne
    | group qs =>
      obtain ⟨_, hparts⟩ := parts_of_canonical h
      obtain ⟨ps', hperm, hparts⟩ := reordered_parts hp hq ih hparts
      exact .group hperm hparts
    | _ => exact absurd (parts_of_canonical h).1 (by decide)
  | all ps ih =>
    cases q with
    | field => exact absurd h canonical_field_ne
    | all qs =>
      obtain ⟨_, hparts⟩ := parts_of_canonical h
      obtain ⟨ps', hperm, hparts⟩ := reordered_parts hp hq ih hparts
      exact .all hperm hparts
    | _ => exact absurd (parts_of_canonical h).1 (by decide)
  | any ps ih =>
    cases q with
    | field => exact absurd h canonical_field_ne
    | any qs =>
      obtain ⟨_, hparts⟩ := parts_of_canonical h
      obtain ⟨ps', hperm, hparts⟩ := reordered_parts hp hq ih hparts
      exact .any hperm hparts
    | _ => exact absurd (parts_of_canonical h).1 (by decide)

end Predicate

namespace Condition

theorem sortedFields_canonical {c : Condition} (h : c.WellShaped) :
    c.canonical.sortedFields = c.canonical := by
  refine sortedFields_arr_eq_self fun v hv => ?_
  exact Predicate.sortedFields_canonicals h (fun _ _ => Predicate.sortedFields_canonical) v
    (List.mem_mergeSort.mp hv)

theorem Reordered.keyText_eq {c d : Condition} (hc : c.WellShaped) (hd : d.WellShaped)
    (h : c.Reordered d) : keyText c.canonical = keyText d.canonical := by
  obtain ⟨ps, hperm, hparts⟩ := h
  have hchars : c.canonical.chars = d.canonical.chars :=
    Predicate.chars_sortedParts hperm hparts fun _ _ _ h => h.chars_canonical
  rw [keyText, keyText, sortedFields_canonical hc, sortedFields_canonical hd, Json.text, hchars,
    ← Json.text]

theorem reordered_of_keyText {c d : Condition} (hc : c.WellShaped) (hd : d.WellShaped)
    (h : keyText c.canonical = keyText d.canonical) : c.Reordered d := by
  have hchars := chars_eq_of_keyText h
  rw [sortedFields_canonical hc, sortedFields_canonical hd] at hchars
  exact Predicate.reordered_parts hc hd (fun _ _ _ => Predicate.reordered_of_canonical) hchars

end Condition

end ContentTables
