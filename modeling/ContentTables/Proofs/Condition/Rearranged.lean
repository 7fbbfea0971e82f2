import ContentTables.Proofs.Condition.Grammar
import ContentTables.Proofs.Condition.Parsed
import ContentTables.Proofs.Query.CacheKey

/-!
# Values that list the parts of a condition in another order

* `Condition.RearrangedFields`, `Condition.Rearranged` : one value becomes the other when fields of
  conditions, operators, and the parts of combinations change places, at whatever depth;
* `Predicate.Reordered.refl`, `Predicate.Reordered.trans`, `Condition.Reordered.append` : conditions
  up to the order of their parts;
* `Condition.RearrangedFields.denotes` : rearranged fields denote reordered predicates;
* `Condition.parse_rearranged` : so both values are read or neither is, and what is read has one
  canonical form and one cache key.
-/

namespace ContentTables

/-! ## Conditions up to the order of their parts -/

theorem Operand.SameText.refl : ∀ operand : Operand, operand.SameText operand
  | .scalar _ => .scalar rfl
  | .list _ => .list rfl
  | .range _ _ => .range rfl rfl

theorem Operand.SameText.trans {a b c : Operand} (hab : a.SameText b) (hbc : b.SameText c) :
    a.SameText c := by
  cases hab with
  | scalar h =>
    cases hbc with
    | scalar h' => exact .scalar (h.trans h')
  | list h =>
    cases hbc with
    | list h' => exact .list (h.trans h')
  | range hlow hhigh =>
    cases hbc with
    | range hlow' hhigh' => exact .range (hlow.trans hlow') (hhigh.trans hhigh')

namespace Predicate

theorem Reordered.refl (p : Predicate) : p.Reordered p := by
  induction p using partsInduction with
  | field column operator operand => exact .field (.refl operand)
  | group ps ih => exact .group (.refl ps) (List.forall₂_same.mpr ih)
  | all ps ih => exact .all (.refl ps) (List.forall₂_same.mpr ih)
  | any ps ih => exact .any (.refl ps) (List.forall₂_same.mpr ih)

/-- The second permutation is moved in front of the first correspondence. -/
theorem trans_parts {ps ps' qs qs' rs : List Predicate} (hps : ps.Perm ps')
    (hpq : List.Forall₂ Reordered ps' qs) (hqs : qs.Perm qs') (hqr : List.Forall₂ Reordered qs' rs)
    (heach : ∀ p ∈ ps, ∀ {q r : Predicate}, p.Reordered q → q.Reordered r → p.Reordered r) :
    ∃ ps'', ps.Perm ps'' ∧ List.Forall₂ Reordered ps'' rs := by
  have hcomp : Relation.Comp (List.Forall₂ Reordered) List.Perm ps' qs' := ⟨qs, hpq, hqs⟩
  rw [List.forall₂_comp_perm_eq_perm_comp_forall₂] at hcomp
  obtain ⟨ps'', hperm, hparts⟩ := hcomp
  refine ⟨ps'', hps.trans hperm, List.forall₂_iff_get.mpr
    ⟨hparts.length_eq.trans hqr.length_eq, fun i hi hi' => ?_⟩⟩
  have hmem : ps''.get ⟨i, hi⟩ ∈ ps := (hps.trans hperm).mem_iff.mpr (List.get_mem ..)
  have hmid : i < qs'.length := hparts.length_eq ▸ hi
  exact heach _ hmem (hparts.get hi hmid) (hqr.get hmid hi')

theorem Reordered.trans {p q r : Predicate} (hpq : p.Reordered q) (hqr : q.Reordered r) :
    p.Reordered r := by
  induction p using partsInduction generalizing q r with
  | field column operator operand =>
    cases hpq with
    | field h =>
      cases hqr with
      | field h' => exact .field (h.trans h')
  | group ps ih =>
    cases hpq with
    | group hperm hparts =>
      cases hqr with
      | group hperm' hparts' =>
        obtain ⟨_, hperm, hparts⟩ := trans_parts hperm hparts hperm' hparts' ih
        exact .group hperm hparts
  | all ps ih =>
    cases hpq with
    | all hperm hparts =>
      cases hqr with
      | all hperm' hparts' =>
        obtain ⟨_, hperm, hparts⟩ := trans_parts hperm hparts hperm' hparts' ih
        exact .all hperm hparts
  | any ps ih =>
    cases hpq with
    | any hperm hparts =>
      cases hqr with
      | any hperm' hparts' =>
        obtain ⟨_, hperm, hparts⟩ := trans_parts hperm hparts hperm' hparts' ih
        exact .any hperm hparts

theorem everyField_mono {P Q : Operator → Operand → Bool}
    (h : ∀ operator operand, P operator operand = true → Q operator operand = true)
    {p : Predicate} (hp : p.everyField P = true) : p.everyField Q = true := by
  induction p using partsInduction with
  | field column operator operand => exact h _ _ hp
  | group ps ih | all ps ih | any ps ih =>
    exact everyFieldOf_iff.mpr fun q hq => ih q hq (everyFieldOf_iff.mp hp q hq)

end Predicate

namespace Condition

theorem Accepted.wellShaped {c : Condition} (h : c.Accepted) : c.WellShaped :=
  Predicate.everyFieldOf_iff.mpr fun p hp =>
    Predicate.everyField_mono (fun _ _ haccepted => (Bool.and_eq_true_iff.mp haccepted).1)
      (Predicate.everyFieldOf_iff.mp h p hp)

/-- Two lists of predicates up to the order of their parts. -/
abbrev SameParts (ps qs : List Predicate) : Prop := Condition.Reordered ⟨ps⟩ ⟨qs⟩

namespace SameParts

variable {ps ps' qs qs' rs : List Predicate}

theorem of_perm (h : ps.Perm qs) : SameParts ps qs :=
  ⟨qs, h, List.forall₂_same.mpr fun p _ => .refl p⟩

theorem refl (ps : List Predicate) : SameParts ps ps := of_perm (.refl ps)

theorem trans (hpq : SameParts ps qs) (hqr : SameParts qs rs) : SameParts ps rs := by
  obtain ⟨_, hps, hparts⟩ := hpq
  obtain ⟨_, hqs, hparts'⟩ := hqr
  exact Predicate.trans_parts hps hparts hqs hparts' fun _ _ _ _ => .trans

theorem append (h : SameParts ps qs) (h' : SameParts ps' qs') :
    SameParts (ps ++ ps') (qs ++ qs') := by
  obtain ⟨ms, hperm, hparts⟩ := h
  obtain ⟨ms', hperm', hparts'⟩ := h'
  exact ⟨ms ++ ms', hperm.append hperm', List.rel_append hparts hparts'⟩

theorem cons {p q : Predicate} (hpq : p.Reordered q) (h : SameParts ps qs) :
    SameParts (p :: ps) (q :: qs) := by
  obtain ⟨ms, hperm, hparts⟩ := h
  exact ⟨p :: ms, hperm.cons p, .cons hpq hparts⟩

/-- A sub-condition of one predicate corresponds to one of one predicate. -/
theorem groups {p : Predicate} (h : SameParts ps qs) (hp : Groups ps p) :
    ∃ q, Groups qs q ∧ p.Reordered q := by
  obtain ⟨ms, hperm, hparts⟩ := h
  cases hp with
  | one p =>
    obtain rfl := List.singleton_perm.mp hperm
    obtain ⟨q, _, hpq, hnil, rfl⟩ := List.forall₂_cons_left_iff.mp hparts
    obtain rfl := List.forall₂_nil_left_iff.mp hnil
    exact ⟨q, .one q, hpq⟩
  | several hlength =>
    rw [hperm.length_eq, hparts.length_eq] at hlength
    exact ⟨_, .several hlength, .group hperm hparts⟩

theorem combines {key : String} {combine : List Predicate → Predicate} (h : SameParts ps qs)
    (hcombine : Combines key combine) : (combine ps).Reordered (combine qs) := by
  obtain ⟨_, hperm, hparts⟩ := h
  cases hcombine with
  | all => exact .all hperm hparts
  | any => exact .any hperm hparts

end SameParts

/-! ## Rearranged values -/

mutual

/-- The value of a field with what it lists in another order. -/
inductive RearrangedTerm : String → Json → Json → Prop
  | same {key : String} {v : Json} : RearrangedTerm key v v
  | operators {key : String} {fs gs : List (String × Json)} (hkey : ¬IsCombinator key)
    (h : fs.Perm gs) : RearrangedTerm key (.obj fs) (.obj gs)
  | items {key : String} {vs ws : List Json} (hkey : IsCombinator key) (h : RearrangedItems vs ws) :
    RearrangedTerm key (.arr vs) (.arr ws)
  | fields {key : String} {fs gs : List (String × Json)} (hkey : IsCombinator key)
    (h : RearrangedFields fs gs) : RearrangedTerm key (.obj fs) (.obj gs)

inductive RearrangedFields : List (String × Json) → List (String × Json) → Prop
  | nil : RearrangedFields [] []
  | cons {key : String} {v w : Json} {fs gs : List (String × Json)} (h : RearrangedTerm key v w)
    (hrest : RearrangedFields fs gs) : RearrangedFields ((key, v) :: fs) ((key, w) :: gs)
  | swap {e f : String × Json} {fs : List (String × Json)} :
    RearrangedFields (e :: f :: fs) (f :: e :: fs)
  | trans {fs gs hs : List (String × Json)} (h : RearrangedFields fs gs)
    (h' : RearrangedFields gs hs) : RearrangedFields fs hs

inductive RearrangedItems : List Json → List Json → Prop
  | nil : RearrangedItems [] []
  | object {fs gs : List (String × Json)} {vs ws : List Json} (h : RearrangedFields fs gs)
    (hrest : RearrangedItems vs ws) : RearrangedItems (.obj fs :: vs) (.obj gs :: ws)
  | other {v : Json} {vs ws : List Json} (hrest : RearrangedItems vs ws) :
    RearrangedItems (v :: vs) (v :: ws)
  | swap {v w : Json} {vs : List Json} : RearrangedItems (v :: w :: vs) (w :: v :: vs)
  | trans {us vs ws : List Json} (h : RearrangedItems us vs) (h' : RearrangedItems vs ws) :
    RearrangedItems us ws

end

inductive Rearranged : Json → Json → Prop
  | same {v : Json} : Rearranged v v
  | object {fs gs : List (String × Json)} (h : RearrangedFields fs gs) :
    Rearranged (.obj fs) (.obj gs)

mutual

theorem RearrangedTerm.symm : ∀ {key : String} {v w : Json}, RearrangedTerm key v w →
    RearrangedTerm key w v
  | _, _, _, .same => .same
  | _, _, _, .operators hkey h => .operators hkey h.symm
  | _, _, _, .items hkey h => .items hkey h.symm
  | _, _, _, .fields hkey h => .fields hkey h.symm

theorem RearrangedFields.symm : ∀ {fs gs : List (String × Json)}, RearrangedFields fs gs →
    RearrangedFields gs fs
  | _, _, .nil => .nil
  | _, _, .cons h hrest => .cons h.symm hrest.symm
  | _, _, .swap => .swap
  | _, _, .trans h h' => .trans h'.symm h.symm

theorem RearrangedItems.symm : ∀ {vs ws : List Json}, RearrangedItems vs ws → RearrangedItems ws vs
  | _, _, .nil => .nil
  | _, _, .object h hrest => .object h.symm hrest.symm
  | _, _, .other hrest => .other hrest.symm
  | _, _, .swap => .swap
  | _, _, .trans h h' => .trans h'.symm h.symm

end

theorem Rearranged.symm {v w : Json} (h : Rearranged v w) : Rearranged w v := by
  cases h with
  | same => exact .same
  | object h => exact .object h.symm

/-! ## Rearranged values denote reordered predicates -/

theorem exists_compares_of_perm {column : String} {fs gs : List (String × Json)}
    {ps : List Predicate} (hperm : fs.Perm gs) (h : List.Forall₂ (Compares column) fs ps) :
    ∃ qs, List.Forall₂ (Compares column) gs qs ∧ ps.Perm qs := by
  have hcomp : Relation.Comp List.Perm (List.Forall₂ (Compares column)) gs ps := ⟨fs, hperm.symm, h⟩
  rw [← List.forall₂_comp_perm_eq_perm_comp_forall₂] at hcomp
  obtain ⟨qs, hqs, hperm⟩ := hcomp
  exact ⟨qs, hqs, hperm.symm⟩

mutual

theorem RearrangedTerm.denotes : ∀ {key : String} {v w : Json} {ps : List Predicate},
    RearrangedTerm key v w → DenotesTerm key v ps → ∃ qs, DenotesTerm key w qs ∧ SameParts ps qs
  | _, _, _, ps, .same, h => ⟨ps, h, .refl ps⟩
  | _, _, _, _, .operators hkey hperm, h => by
    cases h with
    | scalar _ hv => exact nomatch hv
    | operators hcolumn hne h =>
      obtain ⟨qs, hqs, hsame⟩ := exists_compares_of_perm hperm h
      refine ⟨qs, .operators hcolumn (fun hnil => hne ?_) hqs, .of_perm hsame⟩
      exact (hnil ▸ hperm).eq_nil
    | fields hcombine _ => exact absurd hcombine.isCombinator hkey
  | _, _, _, _, .items _ hitems, h => by
    cases h with
    | scalar _ hv => exact nomatch hv
    | items hcombine h =>
      obtain ⟨qs, hqs, hsame⟩ := hitems.denotes h
      exact ⟨_, .items hcombine hqs, .cons (hsame.combines hcombine) (.refl [])⟩
  | _, _, _, _, .fields hkey hfields, h => by
    cases h with
    | scalar _ hv => exact nomatch hv
    | operators hcolumn _ _ =>
      obtain ⟨_, hcombine⟩ := hkey.exists_combines
      exact nomatch (combinator?_of_isColumn hcolumn).symm.trans
        (combinator?_eq_some_iff.mpr hcombine)
    | fields hcombine h =>
      obtain ⟨qs, hqs, hsame⟩ := hfields.denotesSingly h
      exact ⟨_, .fields hcombine hqs, .cons (hsame.combines hcombine) (.refl [])⟩

theorem RearrangedFields.denotes : ∀ {fs gs : List (String × Json)} {ps : List Predicate},
    RearrangedFields fs gs → DenotesTerms fs ps → ∃ qs, DenotesTerms gs qs ∧ SameParts ps qs
  | _, _, ps, .nil, h => ⟨ps, h, .refl ps⟩
  | _, _, _, .cons hterm hrest, h => by
    cases h with
    | cons h hs =>
      obtain ⟨qs, hqs, hsame⟩ := hterm.denotes h
      obtain ⟨rs, hrs, hsame'⟩ := hrest.denotes hs
      exact ⟨_, .cons hqs hrs, hsame.append hsame'⟩
  | _, _, _, .swap, h => by
    obtain _ | ⟨h, _ | ⟨h', hs⟩⟩ := h
    refine ⟨_, .cons h' (.cons h hs), .of_perm ?_⟩
    rw [← List.append_assoc, ← List.append_assoc]
    exact List.perm_append_comm.append_right _
  | _, _, _, .trans h h', hfs => by
    obtain ⟨_, hgs, hsame⟩ := h.denotes hfs
    obtain ⟨qs, hhs, hsame'⟩ := h'.denotes hgs
    exact ⟨qs, hhs, hsame.trans hsame'⟩

theorem RearrangedFields.denotesSingly : ∀ {fs gs : List (String × Json)} {ps : List Predicate},
    RearrangedFields fs gs → DenotesSingly fs ps → ∃ qs, DenotesSingly gs qs ∧ SameParts ps qs
  | _, _, ps, .nil, h => ⟨ps, h, .refl ps⟩
  | _, _, _, .cons hterm hrest, h => by
    cases h with
    | cons h hgroup hs =>
      obtain ⟨qs, hqs, hsame⟩ := hterm.denotes h
      obtain ⟨q, hq, hreordered⟩ := hsame.groups hgroup
      obtain ⟨rs, hrs, hsame'⟩ := hrest.denotesSingly hs
      exact ⟨_, .cons hqs hq hrs, .cons hreordered hsame'⟩
  | _, _, _, .swap, h => by
    obtain _ | ⟨h, hgroup, _ | ⟨h', hgroup', hs⟩⟩ := h
    exact ⟨_, .cons h' hgroup' (.cons h hgroup hs), .of_perm (.swap ..)⟩
  | _, _, _, .trans h h', hfs => by
    obtain ⟨_, hgs, hsame⟩ := h.denotesSingly hfs
    obtain ⟨qs, hhs, hsame'⟩ := h'.denotesSingly hgs
    exact ⟨qs, hhs, hsame.trans hsame'⟩

theorem RearrangedItems.denotes : ∀ {vs ws : List Json} {ps : List Predicate},
    RearrangedItems vs ws → DenotesItems vs ps → ∃ qs, DenotesItems ws qs ∧ SameParts ps qs
  | _, _, ps, .nil, h => ⟨ps, h, .refl ps⟩
  | _, _, _, .object hfields hrest, h => by
    cases h with
    | cons h hgroup hs =>
      obtain ⟨qs, hqs, hsame⟩ := hfields.denotes h
      obtain ⟨q, hq, hreordered⟩ := hsame.groups hgroup
      obtain ⟨rs, hrs, hsame'⟩ := hrest.denotes hs
      exact ⟨_, .cons hqs hq hrs, .cons hreordered hsame'⟩
  | _, _, _, .other hrest, h => by
    cases h with
    | cons h hgroup hs =>
      obtain ⟨rs, hrs, hsame⟩ := hrest.denotes hs
      exact ⟨_, .cons h hgroup hrs, .cons (.refl _) hsame⟩
  | _, _, _, .swap, h => by
    obtain _ | ⟨h, hgroup, _ | ⟨h', hgroup', hs⟩⟩ := h
    exact ⟨_, .cons h' hgroup' (.cons h hgroup hs), .of_perm (.swap ..)⟩
  | _, _, _, .trans h h', hvs => by
    obtain ⟨_, hws, hsame⟩ := h.denotes hvs
    obtain ⟨qs, hqs, hsame'⟩ := h'.denotes hws
    exact ⟨qs, hqs, hsame.trans hsame'⟩

end

theorem Rearranged.parse {v w : Json} {c : Condition} (h : Rearranged v w)
    (hv : parse v = .ok c) : ∃ d, Condition.parse w = .ok d ∧ c.Reordered d := by
  cases h with
  | same => exact ⟨c, hv, SameParts.refl c.predicates⟩
  | object h =>
    cases parse_eq_ok_iff.mp hv with
    | object hterms =>
      obtain ⟨qs, hqs, hsame⟩ := h.denotes hterms
      exact ⟨⟨qs⟩, parse_eq_ok_iff.mpr (.object hqs), hsame⟩

/-- Both values are read or neither is. The two conditions have one canonical form, and queries that
differ in nothing else have one key. -/
theorem parse_rearranged {v w : Json} (h : Rearranged v w) :
    ((∃ c, parse v = .ok c) ↔ ∃ d, parse w = .ok d) ∧
      ∀ c d, parse v = .ok c → parse w = .ok d → c.canonical.text = d.canonical.text ∧
        ∀ q : SelectQuery, ({ q with condition := c } : SelectQuery).cacheKey =
          ({ q with condition := d } : SelectQuery).cacheKey := by
  refine ⟨⟨fun ⟨c, hc⟩ => ?_, fun ⟨d, hd⟩ => ?_⟩, fun c d hc hd => ?_⟩
  · obtain ⟨d, hd, _⟩ := h.parse hc
    exact ⟨d, hd⟩
  · obtain ⟨c, hc, _⟩ := h.symm.parse hd
    exact ⟨c, hc⟩
  · obtain ⟨d', hd', hreordered⟩ := h.parse hc
    obtain rfl : d' = d := Except.ok.inj (hd'.symm.trans hd)
    have hwell : c.WellShaped := Accepted.wellShaped (accepted_parse v c hc)
    have hwell' : d'.WellShaped := Accepted.wellShaped (accepted_parse w d' hd)
    refine ⟨?_, fun q => ?_⟩
    · have hkey := hreordered.keyText_eq hwell hwell'
      rwa [keyText, keyText, sortedFields_canonical hwell, sortedFields_canonical hwell'] at hkey
    · exact SelectQuery.Alike.cacheKey_eq hwell hwell'
        ⟨rfl, rfl, hreordered, rfl, rfl, rfl, rfl, rfl⟩

/-- Fields, operators, the objects of an array and the fields of an object all change places. -/
theorem parse_rearranged_everywhere :
    let between : String × Json := ("a", .obj [("$gt", .str "x"), ("$not", .bool true)])
    let between' : String × Json := ("a", .obj [("$not", .bool true), ("$gt", .str "x")])
    let both : Json := .obj [("$and", .obj [("b", .null), ("c", .str "y")])]
    let both' : Json := .obj [("$and", .obj [("c", .str "y"), ("b", .null)])]
    let v : Json := .obj [("$or", .arr [.obj [between], both]), ("d", .str "z")]
    let w : Json := .obj [("d", .str "z"), ("$or", .arr [both', .obj [between']])]
    Rearranged v w ∧ v ≠ w ∧ ∃ c d, parse v = .ok c ∧ parse w = .ok d ∧
      c.canonical.text = d.canonical.text ∧
      ({ table := "t", condition := c } : SelectQuery).cacheKey =
        ({ table := "t", condition := d } : SelectQuery).cacheKey := by
  intro between between' both both' v w
  have hbetween : RearrangedFields [between] [between'] :=
    .cons (.operators (by unfold IsCombinator; decide) (.swap ..)) .nil
  have hboth : RearrangedFields [("$and", .obj [("b", .null), ("c", .str "y")])]
      [("$and", .obj [("c", .str "y"), ("b", .null)])] := .cons (.fields (.inl rfl) .swap) .nil
  have hitems : RearrangedItems [.obj [between], both] [both', .obj [between']] :=
    .trans (.object hbetween (.object hboth .nil)) .swap
  have h : Rearranged v w :=
    .object (.trans (.cons (.items (.inr rfl) hitems) (.cons .same .nil)) .swap)
  obtain ⟨hread, hsame⟩ := parse_rearranged h
  have hv : ∃ c, parse v = .ok c := ⟨_, rfl⟩
  obtain ⟨d, hd⟩ := hread.mp hv
  obtain ⟨c, hc⟩ := hv
  obtain ⟨htext, hkey⟩ := hsame c d hc hd
  exact ⟨h, by simp [v, w], c, d, hc, hd, htext, hkey { table := "t" }⟩

end Condition

end ContentTables
