import ContentTables.Condition.Parse
import Mathlib.Data.List.Forall2

/-!
# The grammar of the condition language

The parser stops at the first fault. The grammar says without any order of reading which values are
conditions, and what each of them denotes.

* `Operator.Takes` : the operand that an operator takes from a value;
* `Condition.IsTerm`, `Condition.IsCondition` : the fields that a condition may have, and the values
  that are conditions;
* `Condition.DenotesTerm`, `Condition.Denotes` : the predicates of a field, and the condition of a
  value;
* `Condition.parse_eq_ok_iff` : a value is read as the condition that it denotes;
* `Condition.parse_iff_grammar` : the values that are read are those of the grammar, and all others
  are reported as malformed.
-/

namespace ContentTables

/-- Lists for membership, two values for `between`, and one value for every other operator. -/
inductive Operator.Takes : Operator → Json → Operand → Prop
  | list {operator : Operator} {vs : List Json} (hlist : operator.takesList = true) (hne : vs ≠ [])
    (hscalars : ∀ v ∈ vs, v.isScalar = true) : Takes operator (.arr vs) (.list vs)
  | range {low high : Json} (hlow : low.isScalar = true) (hhigh : high.isScalar = true) :
    Takes .between (.arr [low, high]) (.range low high)
  | scalar {operator : Operator} {v : Json} (hlist : operator.takesList = false)
    (hrange : operator ≠ .between) (hscalar : v.isScalar = true) : Takes operator v (.scalar v)

namespace Condition

/-! ## Which values are conditions -/

def IsColumn (key : String) : Prop := key.toList.head? ≠ some '$'

def IsCombinator (key : String) : Prop := key = "$and" ∨ key = "$or"

/-- The word of an operator with an operand that it takes. -/
def IsComparison (entry : String × Json) : Prop :=
  ∃ (operator : Operator) (operand : Operand),
    operator.token? = some entry.1 ∧ operator.Takes entry.2 operand

/-- A field of a condition: a column with a scalar or with operators, or a combination of objects
or of the fields of one object. -/
inductive IsTerm : String → Json → Prop
  | scalar {key : String} {v : Json} (hkey : IsColumn key) (hv : v.isScalar = true) : IsTerm key v
  | operators {key : String} {operators : List (String × Json)} (hkey : IsColumn key)
    (hne : operators ≠ []) (h : ∀ e ∈ operators, IsComparison e) : IsTerm key (.obj operators)
  | items {key : String} {items : List (List (String × Json))} (hkey : IsCombinator key)
    (h : ∀ fields ∈ items, ∀ e ∈ fields, IsTerm e.1 e.2) : IsTerm key (.arr (items.map .obj))
  | fields {key : String} {fields : List (String × Json)} (hkey : IsCombinator key)
    (h : ∀ e ∈ fields, IsTerm e.1 e.2) : IsTerm key (.obj fields)

inductive IsCondition : Json → Prop
  | null : IsCondition .null
  | object {fields : List (String × Json)} (h : ∀ e ∈ fields, IsTerm e.1 e.2) :
    IsCondition (.obj fields)

/-! ## What they denote -/

/-- An operator by its word, with its operand. -/
inductive Compares (column : String) : String × Json → Predicate → Prop
  | intro {token : String} {v : Json} {operator : Operator} {operand : Operand}
    (htoken : operator.token? = some token) (h : operator.Takes v operand) :
    Compares column (token, v) (.field column operator operand)

inductive Combines : String → (List Predicate → Predicate) → Prop
  | all : Combines "$and" .all
  | any : Combines "$or" .any

/-- A sub-condition of one predicate is that predicate, any other is a group. -/
inductive Groups : List Predicate → Predicate → Prop
  | one (p : Predicate) : Groups [p] p
  | several {ps : List Predicate} (h : ps.length ≠ 1) : Groups ps (.group ps)

mutual

inductive DenotesTerm : String → Json → List Predicate → Prop
  | scalar {key : String} {v : Json} (hkey : IsColumn key) (hv : v.isScalar = true) :
    DenotesTerm key v [.field key .equal (.scalar v)]
  | operators {key : String} {operators : List (String × Json)} {ps : List Predicate}
    (hkey : IsColumn key) (hne : operators ≠ []) (h : List.Forall₂ (Compares key) operators ps) :
    DenotesTerm key (.obj operators) ps
  | items {key : String} {items : List Json} {combine : List Predicate → Predicate}
    {ps : List Predicate} (hkey : Combines key combine) (h : DenotesItems items ps) :
    DenotesTerm key (.arr items) [combine ps]
  | fields {key : String} {fields : List (String × Json)} {combine : List Predicate → Predicate}
    {ps : List Predicate} (hkey : Combines key combine) (h : DenotesSingly fields ps) :
    DenotesTerm key (.obj fields) [combine ps]

/-- The predicates of all fields of an object, in order. -/
inductive DenotesTerms : List (String × Json) → List Predicate → Prop
  | nil : DenotesTerms [] []
  | cons {key : String} {v : Json} {rest : List (String × Json)} {ps qs : List Predicate}
    (h : DenotesTerm key v ps) (hrest : DenotesTerms rest qs) :
    DenotesTerms ((key, v) :: rest) (ps ++ qs)

/-- Each object of an array as a sub-condition. -/
inductive DenotesItems : List Json → List Predicate → Prop
  | nil : DenotesItems [] []
  | cons {fields : List (String × Json)} {rest : List Json} {ps qs : List Predicate} {p : Predicate}
    (h : DenotesTerms fields ps) (hgroup : Groups ps p) (hrest : DenotesItems rest qs) :
    DenotesItems (.obj fields :: rest) (p :: qs)

/-- Each field of an object as a sub-condition. -/
inductive DenotesSingly : List (String × Json) → List Predicate → Prop
  | nil : DenotesSingly [] []
  | cons {key : String} {v : Json} {rest : List (String × Json)} {ps qs : List Predicate}
    {p : Predicate} (h : DenotesTerm key v ps) (hgroup : Groups ps p)
    (hrest : DenotesSingly rest qs) : DenotesSingly ((key, v) :: rest) (p :: qs)

end

inductive Denotes : Json → Condition → Prop
  | null : Denotes .null .empty
  | object {fields : List (String × Json)} {ps : List Predicate} (h : DenotesTerms fields ps) :
    Denotes (.obj fields) ⟨ps⟩

/-! ## The parser reads what a value denotes -/

section Parser
variable {key column : String} {v : Json} {operand : Operand} {ps : List Predicate}

theorem bind_eq_ok_iff {ε α β : Type} {result : Except ε α} {f : α → Except ε β} {b : β} :
    result >>= f = .ok b ↔ ∃ a, result = .ok a ∧ f a = .ok b := by
  cases result with
  | error e => exact ⟨nofun, nofun⟩
  | ok a =>
    constructor
    · exact fun h => ⟨a, rfl, h⟩
    · rintro ⟨_, ⟨⟩, h⟩
      exact h

theorem takes_of_parseList {operator : Operator} (hlist : operator.takesList = true)
    (h : parseList column v = .ok operand) : operator.Takes v operand := by
  unfold parseList at h
  split at h
  · exact nomatch h
  · rename_i items hne
    split at h
    · rename_i hscalars
      cases h
      exact .list hlist hne (List.all_eq_true.mp hscalars)
    · exact nomatch h
  · exact nomatch h

theorem takes_of_parseRange (h : parseRange column v = .ok operand) :
    Operator.Takes .between v operand := by
  unfold parseRange at h
  split at h
  · split at h
    · rename_i hscalars
      cases h
      obtain ⟨hlow, hhigh⟩ := Bool.and_eq_true_iff.mp hscalars
      exact .range hlow hhigh
    · exact nomatch h
  · exact nomatch h

theorem takes_of_parseScalar {operator : Operator} (hlist : operator.takesList = false)
    (hrange : operator ≠ .between) (h : parseScalar column v = .ok operand) :
    operator.Takes v operand := by
  unfold parseScalar at h
  split at h
  · rename_i hscalar
    cases h
    exact .scalar hlist hrange hscalar
  · exact nomatch h

theorem takes_of_parseOperand {operator : Operator}
    (h : parseOperand column operator v = .ok operand) : operator.Takes v operand := by
  cases operator with
  | isIn | notIn => exact takes_of_parseList rfl h
  | between => exact takes_of_parseRange h
  | _ => exact takes_of_parseScalar rfl nofun h

theorem parseOperand_of_takes {operator : Operator} (h : operator.Takes v operand) :
    parseOperand column operator v = .ok operand := by
  cases h with
  | @list _ vs hlist hne hscalars =>
    have hread : parseList column (.arr vs) = .ok (.list vs) := by
      cases vs with
      | nil => exact absurd rfl hne
      | cons v vs => exact if_pos (List.all_eq_true.mpr hscalars)
    cases operator with
    | isIn | notIn => exact hread
    | _ => exact nomatch hlist
  | range hlow hhigh => exact if_pos (Bool.and_eq_true_iff.mpr ⟨hlow, hhigh⟩)
  | scalar hlist hrange hscalar =>
    have hread : parseScalar column v = .ok (.scalar v) := if_pos hscalar
    cases operator with
    | isIn | notIn => exact nomatch hlist
    | between => exact absurd rfl hrange
    | _ => exact hread

theorem ofToken?_eq_some_iff {token : String} {operator : Operator} :
    Operator.ofToken? token = some operator ↔ operator.token? = some token := by
  refine ⟨fun h => ?_, Operator.ofToken?_of_token?⟩
  have hfound := List.find?_some h
  exact of_decide_eq_true hfound

theorem parseOperators_eq_ok_iff {operators : List (String × Json)} :
    parseOperators column operators = .ok ps ↔ List.Forall₂ (Compares column) operators ps := by
  induction operators generalizing ps with
  | nil =>
    rw [List.forall₂_nil_left_iff, parseOperators]
    exact ⟨fun h => (Except.ok.inj h).symm, fun h => congrArg Except.ok h.symm⟩
  | cons entry rest ih =>
    obtain ⟨token, v⟩ := entry
    rw [parseOperators, List.forall₂_cons_left_iff]
    constructor
    · intro h
      split at h
      · exact nomatch h
      · rename_i operator htoken
        obtain ⟨operand, hoperand, h⟩ := bind_eq_ok_iff.mp h
        obtain ⟨others, hothers, h⟩ := bind_eq_ok_iff.mp h
        cases h
        exact ⟨_, others, .intro (ofToken?_eq_some_iff.mp htoken) (takes_of_parseOperand hoperand),
          ih.mp hothers, rfl⟩
    · rintro ⟨_, others, ⟨htoken, hoperand⟩, hothers, rfl⟩
      rw [ofToken?_eq_some_iff.mpr htoken]
      simp only [parseOperand_of_takes hoperand, ih.mpr hothers]
      rfl

theorem combinator?_eq_some_iff {combine : List Predicate → Predicate} :
    combinator? key = some combine ↔ Combines key combine := by
  unfold combinator?
  constructor
  · intro h
    split at h
    · rename_i hkey
      cases h
      exact hkey ▸ .all
    · split at h
      · rename_i hkey
        cases h
        exact hkey ▸ .any
      · exact nomatch h
  · rintro (_ | _)
    · rfl
    · rfl

/-- No column is called like a combination. -/
theorem combinator?_of_isColumn (h : IsColumn key) : combinator? key = none := by
  unfold combinator?
  rw [if_neg, if_neg]
  · rintro rfl
    exact h (by decide)
  · rintro rfl
    exact h (by decide)

theorem groups_iff {p : Predicate} : Groups ps p ↔ grouped ps = p := by
  constructor
  · rintro (_ | hlength)
    · rfl
    · unfold grouped
      split
      · exact absurd rfl hlength
      · rfl
  · rintro rfl
    unfold grouped
    split
    · exact .one _
    · rename_i hne
      exact .several fun hlength => (List.length_eq_one_iff.mp hlength).elim hne

/-- A field whose key is no combination. -/
theorem parseField_eq_ok_iff : parseField key v = .ok ps ↔ IsColumn key ∧
    (v.isScalar = true ∧ ps = [.field key .equal (.scalar v)] ∨
      ∃ operators, v = .obj operators ∧ operators ≠ [] ∧
        List.Forall₂ (Compares key) operators ps) := by
  unfold parseField
  split
  · rename_i hkey
    exact ⟨nofun, fun h => absurd hkey h.1⟩
  · rename_i hkey
    rw [and_iff_right (show IsColumn key from hkey)]
    cases v with
    | obj operators =>
      cases operators with
      | nil => exact ⟨nofun, by rintro (⟨⟨⟩, _⟩ | ⟨_, ⟨⟩, hne, _⟩); exact absurd rfl hne⟩
      | cons entry rest =>
        refine parseOperators_eq_ok_iff.trans ⟨fun h => .inr ⟨_, rfl, nofun, h⟩, ?_⟩
        rintro (⟨⟨⟩, _⟩ | ⟨_, ⟨⟩, _, h⟩)
        exact h
    | arr items => exact ⟨nofun, by rintro (⟨⟨⟩, _⟩ | ⟨_, ⟨⟩, _⟩)⟩
    | _ =>
      refine ⟨fun h => .inl ⟨rfl, (Except.ok.inj h).symm⟩, ?_⟩
      rintro (⟨_, rfl⟩ | ⟨_, ⟨⟩, _⟩)
      rfl

end Parser

/-! ## Fields and their combinations -/

mutual

theorem parseTerm_eq_ok_iff (key : String) : ∀ (v : Json) {ps : List Predicate},
    parseTerm key v = .ok ps ↔ DenotesTerm key v ps
  | .arr items, ps => by
    rw [parseTerm]
    constructor
    · intro h
      split at h
      · rename_i combine hcombine
        obtain ⟨parts, hparts, h⟩ := bind_eq_ok_iff.mp h
        cases h
        exact .items (combinator?_eq_some_iff.mp hcombine)
          ((parseItems_eq_ok_iff key items).mp hparts)
      · obtain ⟨_, ⟨⟨⟩, _⟩ | ⟨_, ⟨⟩, _⟩⟩ := parseField_eq_ok_iff.mp h
    · rintro (⟨_, ⟨⟩⟩ | _ | ⟨hkey, hitems⟩ | _)
      rw [combinator?_eq_some_iff.mpr hkey]
      simp only [(parseItems_eq_ok_iff key items).mpr hitems]
      rfl
  | .obj fields, ps => by
    rw [parseTerm]
    constructor
    · intro h
      split at h
      · rename_i combine hcombine
        obtain ⟨parts, hparts, h⟩ := bind_eq_ok_iff.mp h
        cases h
        have hterms := (parseSingly_eq_ok_iff fields).mp hparts
        exact .fields (combinator?_eq_some_iff.mp hcombine) hterms
      · obtain ⟨hkey, ⟨⟨⟩, _⟩ | ⟨_, ⟨⟩, hne, h⟩⟩ := parseField_eq_ok_iff.mp h
        exact .operators hkey hne h
    · rintro (⟨_, ⟨⟩⟩ | ⟨hkey, hne, h⟩ | _ | ⟨hkey, hfields⟩)
      · rw [combinator?_of_isColumn hkey]
        exact parseField_eq_ok_iff.mpr ⟨hkey, .inr ⟨fields, rfl, hne, h⟩⟩
      · rw [combinator?_eq_some_iff.mpr hkey]
        simp only [(parseSingly_eq_ok_iff fields).mpr hfields]
        rfl
  | .null, ps | .bool _, ps | .num _, ps | .str _, ps => by
    unfold parseTerm
    constructor
    · intro h
      split at h
      · exact nomatch h
      · obtain ⟨hkey, ⟨hv, rfl⟩ | ⟨_, ⟨⟩, _⟩⟩ := parseField_eq_ok_iff.mp h
        exact .scalar hkey hv
    · rintro (⟨hkey, hv⟩ | _ | _ | _)
      rw [combinator?_of_isColumn hkey]
      exact parseField_eq_ok_iff.mpr ⟨hkey, .inl ⟨hv, rfl⟩⟩

theorem parseTerms_eq_ok_iff : ∀ (fields : List (String × Json)) {ps : List Predicate},
    parseTerms fields = .ok ps ↔ DenotesTerms fields ps
  | [], ps => by
    rw [parseTerms]
    exact ⟨by rintro ⟨⟩; exact .nil, by rintro ⟨⟩; rfl⟩
  | (key, v) :: rest, ps => by
    rw [parseTerms]
    constructor
    · intro h
      obtain ⟨predicates, hpredicates, h⟩ := bind_eq_ok_iff.mp h
      obtain ⟨others, hothers, h⟩ := bind_eq_ok_iff.mp h
      cases h
      exact .cons ((parseTerm_eq_ok_iff key v).mp hpredicates)
        ((parseTerms_eq_ok_iff rest).mp hothers)
    · rintro (_ | ⟨h, hrest⟩)
      simp only [(parseTerm_eq_ok_iff key v).mpr h, (parseTerms_eq_ok_iff rest).mpr hrest]
      rfl

theorem parseItems_eq_ok_iff (key : String) : ∀ (items : List Json) {ps : List Predicate},
    parseItems key items = .ok ps ↔ DenotesItems items ps
  | [], ps => by
    rw [parseItems]
    exact ⟨by rintro ⟨⟩; exact .nil, by rintro ⟨⟩; rfl⟩
  | .obj fields :: rest, ps => by
    rw [parseItems]
    constructor
    · intro h
      obtain ⟨predicates, hpredicates, h⟩ := bind_eq_ok_iff.mp h
      obtain ⟨others, hothers, h⟩ := bind_eq_ok_iff.mp h
      cases h
      exact .cons ((parseTerms_eq_ok_iff fields).mp hpredicates) (groups_iff.mpr rfl)
        ((parseItems_eq_ok_iff key rest).mp hothers)
    · rintro (_ | ⟨h, hgroup, hrest⟩)
      obtain rfl := groups_iff.mp hgroup
      simp only [(parseTerms_eq_ok_iff fields).mpr h, (parseItems_eq_ok_iff key rest).mpr hrest]
      rfl
  | .null :: _, _ | .bool _ :: _, _ | .num _ :: _, _ | .str _ :: _, _ | .arr _ :: _, _ =>
    ⟨nofun, nofun⟩

theorem parseSingly_eq_ok_iff : ∀ (fields : List (String × Json)) {ps : List Predicate},
    parseSingly fields = .ok ps ↔ DenotesSingly fields ps
  | [], ps => by
    rw [parseSingly]
    exact ⟨by rintro ⟨⟩; exact .nil, by rintro ⟨⟩; rfl⟩
  | (key, v) :: rest, ps => by
    rw [parseSingly]
    constructor
    · intro h
      obtain ⟨predicates, hpredicates, h⟩ := bind_eq_ok_iff.mp h
      obtain ⟨others, hothers, h⟩ := bind_eq_ok_iff.mp h
      cases h
      exact .cons ((parseTerm_eq_ok_iff key v).mp hpredicates) (groups_iff.mpr rfl)
        ((parseSingly_eq_ok_iff rest).mp hothers)
    · rintro (_ | ⟨h, hgroup, hrest⟩)
      obtain rfl := groups_iff.mp hgroup
      simp only [(parseTerm_eq_ok_iff key v).mpr h, (parseSingly_eq_ok_iff rest).mpr hrest]
      rfl

end

theorem parse_eq_ok_iff {v : Json} {c : Condition} : parse v = .ok c ↔ Denotes v c := by
  constructor
  · intro h
    cases v with
    | null =>
      cases h
      exact .null
    | obj fields =>
      change (parseTerms fields).map Condition.mk = .ok c at h
      cases hps : parseTerms fields with
      | error fault =>
        rw [hps] at h
        exact nomatch h
      | ok ps =>
        rw [hps] at h
        cases h
        exact .object ((parseTerms_eq_ok_iff fields).mp hps)
    | _ => exact nomatch h
  · rintro (_ | ⟨hterms⟩)
    · rfl
    · rw [parse, (parseTerms_eq_ok_iff _).mpr hterms]
      rfl

/-! ## A value denotes something exactly if it is in the grammar -/

theorem Combines.isCombinator {key : String} {combine : List Predicate → Predicate}
    (h : Combines key combine) : IsCombinator key := by
  cases h with
  | all => exact .inl rfl
  | any => exact .inr rfl

theorem IsCombinator.exists_combines {key : String} (h : IsCombinator key) :
    ∃ combine, Combines key combine := by
  rcases h with rfl | rfl
  · exact ⟨_, .all⟩
  · exact ⟨_, .any⟩

theorem exists_groups (ps : List Predicate) : ∃ p, Groups ps p := ⟨_, groups_iff.mpr rfl⟩

section Members
variable {fields : List (String × Json)}

theorem exists_denotesTerms (h : ∀ e ∈ fields, ∃ ps, DenotesTerm e.1 e.2 ps) :
    ∃ ps, DenotesTerms fields ps := by
  induction fields with
  | nil => exact ⟨[], .nil⟩
  | cons e rest ih =>
    obtain ⟨⟨ps, hps⟩, hrest⟩ := List.forall_mem_cons.mp h
    obtain ⟨qs, hqs⟩ := ih hrest
    exact ⟨ps ++ qs, .cons hps hqs⟩

theorem exists_denotesSingly (h : ∀ e ∈ fields, ∃ ps, DenotesTerm e.1 e.2 ps) :
    ∃ ps, DenotesSingly fields ps := by
  induction fields with
  | nil => exact ⟨[], .nil⟩
  | cons e rest ih =>
    obtain ⟨⟨ps, hps⟩, hrest⟩ := List.forall_mem_cons.mp h
    obtain ⟨qs, hqs⟩ := ih hrest
    obtain ⟨p, hp⟩ := exists_groups ps
    exact ⟨p :: qs, .cons hps hp hqs⟩

theorem exists_denotesItems {items : List (List (String × Json))}
    (h : ∀ fields ∈ items, ∀ e ∈ fields, ∃ ps, DenotesTerm e.1 e.2 ps) :
    ∃ ps, DenotesItems (items.map .obj) ps := by
  induction items with
  | nil => exact ⟨[], .nil⟩
  | cons fields rest ih =>
    obtain ⟨hfields, hrest⟩ := List.forall_mem_cons.mp h
    obtain ⟨ps, hps⟩ := exists_denotesTerms hfields
    obtain ⟨qs, hqs⟩ := ih hrest
    obtain ⟨p, hp⟩ := exists_groups ps
    exact ⟨p :: qs, .cons hps hp hqs⟩

theorem exists_compares {column : String} (h : ∀ e ∈ fields, IsComparison e) :
    ∃ ps, List.Forall₂ (Compares column) fields ps := by
  induction fields with
  | nil => exact ⟨[], .nil⟩
  | cons e rest ih =>
    obtain ⟨⟨operator, operand, htoken, htakes⟩, hrest⟩ := List.forall_mem_cons.mp h
    obtain ⟨qs, hqs⟩ := ih hrest
    exact ⟨_ :: qs, .cons (.intro htoken htakes) hqs⟩

end Members

theorem IsTerm.exists_denotes {key : String} {v : Json} (h : IsTerm key v) :
    ∃ ps, DenotesTerm key v ps := by
  induction h with
  | scalar hkey hv => exact ⟨_, .scalar hkey hv⟩
  | operators hkey hne h =>
    obtain ⟨ps, hps⟩ := exists_compares h
    exact ⟨ps, .operators hkey hne hps⟩
  | items hkey _ ih =>
    obtain ⟨combine, hcombine⟩ := hkey.exists_combines
    obtain ⟨ps, hps⟩ := exists_denotesItems ih
    exact ⟨_, .items hcombine hps⟩
  | fields hkey _ ih =>
    obtain ⟨combine, hcombine⟩ := hkey.exists_combines
    obtain ⟨ps, hps⟩ := exists_denotesSingly ih
    exact ⟨_, .fields hcombine hps⟩

theorem isComparison_of_compares {column : String} {operators : List (String × Json)}
    {ps : List Predicate} (h : List.Forall₂ (Compares column) operators ps) :
    ∀ e ∈ operators, IsComparison e := by
  induction h with
  | nil => exact nofun
  | cons hentry _ ih =>
    cases hentry with
    | intro htoken htakes => exact List.forall_mem_cons.mpr ⟨⟨_, _, htoken, htakes⟩, ih⟩

mutual

theorem DenotesTerm.isTerm : ∀ {key : String} {v : Json} {ps : List Predicate},
    DenotesTerm key v ps → IsTerm key v
  | _, _, _, .scalar hkey hv => .scalar hkey hv
  | _, _, _, .operators hkey hne h => .operators hkey hne (isComparison_of_compares h)
  | _, _, _, .items hkey h => by
    obtain ⟨items, rfl, hitems⟩ := h.isTerm
    exact .items hkey.isCombinator hitems
  | _, _, _, .fields hkey h => .fields hkey.isCombinator h.isTerm

theorem DenotesTerms.isTerm : ∀ {fields : List (String × Json)} {ps : List Predicate},
    DenotesTerms fields ps → ∀ e ∈ fields, IsTerm e.1 e.2
  | _, _, .nil => nofun
  | _, _, .cons h hrest => List.forall_mem_cons.mpr ⟨h.isTerm, hrest.isTerm⟩

theorem DenotesItems.isTerm : ∀ {items : List Json} {ps : List Predicate}, DenotesItems items ps →
    ∃ objects : List (List (String × Json)), objects.map .obj = items ∧
      ∀ fields ∈ objects, ∀ e ∈ fields, IsTerm e.1 e.2
  | _, _, .nil => ⟨[], rfl, nofun⟩
  | _, _, .cons h _ hrest => by
    obtain ⟨objects, rfl, hobjects⟩ := hrest.isTerm
    exact ⟨_ :: objects, rfl, List.forall_mem_cons.mpr ⟨h.isTerm, hobjects⟩⟩

theorem DenotesSingly.isTerm : ∀ {fields : List (String × Json)} {ps : List Predicate},
    DenotesSingly fields ps → ∀ e ∈ fields, IsTerm e.1 e.2
  | _, _, .nil => nofun
  | _, _, .cons h _ hrest => List.forall_mem_cons.mpr ⟨h.isTerm, hrest.isTerm⟩

end

theorem exists_denotes_iff {v : Json} : (∃ c, Denotes v c) ↔ IsCondition v := by
  constructor
  · rintro ⟨_, _ | ⟨h⟩⟩
    · exact .null
    · exact .object h.isTerm
  · rintro (_ | ⟨h⟩)
    · exact ⟨_, .null⟩
    · obtain ⟨ps, hps⟩ := exists_denotesTerms fun e he => (h e he).exists_denotes
      exact ⟨⟨ps⟩, .object hps⟩

/-- A value is read as the condition that it denotes. It denotes one exactly if it is in the
grammar, and any other value is reported as malformed. -/
theorem parse_iff_grammar (v : Json) :
    (∀ c, parse v = .ok c ↔ Denotes v c) ∧ ((∃ c, parse v = .ok c) ↔ IsCondition v) ∧
      ((∃ fault : ConditionFault, parse v = .error fault ∧
        fault.error = .malformedCondition fault.message) ↔ ¬IsCondition v) := by
  have hread : (∃ c, parse v = .ok c) ↔ IsCondition v := by
    rw [← exists_denotes_iff]
    exact exists_congr fun _ => parse_eq_ok_iff
  refine ⟨fun _ => parse_eq_ok_iff, hread, ?_⟩
  rw [← hread]
  cases parse v with
  | ok c => exact ⟨by rintro ⟨_, ⟨⟩, _⟩, fun h => absurd ⟨c, rfl⟩ h⟩
  | error fault => exact ⟨fun _ => nofun, fun _ => ⟨fault, rfl, rfl⟩⟩

end Condition

end ContentTables
