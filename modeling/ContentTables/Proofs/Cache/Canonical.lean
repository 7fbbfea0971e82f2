import ContentTables.Proofs.Cache.KeyText
import ContentTables.Proofs.Json.ReadBack
import Mathlib.Data.List.Perm.Basic

/-!
# Keys are a canonical form

* `Json.Alike` : values that differ in the order of object fields only, with scalars of one text;
* `Json.nestedInduction` : induction over the items and fields of a value;
* `keyText_arr_congr`, `keyText_obj_of_perm` : the keys of the parts determine the key of the whole,
  whatever the order of the fields is;
* `Json.Alike.keyText_eq`, `Json.alike_of_keyText` : alike values, and no others, have one key;
* `key_eq_iff` : both, for every value but null, which has no key.
-/

namespace ContentTables

namespace Json

/-- The fields of each object are permuted, and the permuted fields correspond one by one. -/
inductive Alike : Json → Json → Prop
  | scalar {v w : Json} (hv : v.isScalar = true) (hw : w.isScalar = true)
    (htext : v.text = w.text) : Alike v w
  | arr {vs ws : List Json} (hitems : List.Forall₂ Alike vs ws) : Alike (.arr vs) (.arr ws)
  | obj {fs fs' gs : List (String × Json)} (hperm : fs.Perm fs') (hnames : namesOf fs' = namesOf gs)
    (hvalues : List.Forall₂ Alike (fs'.map Prod.snd) (gs.map Prod.snd)) : Alike (.obj fs) (.obj gs)

theorem nestedInduction {motive : Json → Prop}
    (scalar : ∀ v : Json, v.isScalar = true → motive v)
    (arr : ∀ vs, (∀ v ∈ vs, motive v) → motive (.arr vs))
    (obj : ∀ fs : List (String × Json), (∀ f ∈ fs, motive f.2) → motive (.obj fs)) (v : Json) :
    motive v :=
  @Json.rec motive (fun vs => ∀ v ∈ vs, motive v) (fun fs => ∀ f ∈ fs, motive f.2)
    (fun f => motive f.2) (scalar _ rfl) (fun _ => scalar _ rfl) (fun _ => scalar _ rfl)
    (fun _ => scalar _ rfl) arr obj (List.forall_mem_nil _)
    (fun _ _ hv hvs => List.forall_mem_cons.mpr ⟨hv, hvs⟩) (List.forall_mem_nil _)
    (fun _ _ hf hfs => List.forall_mem_cons.mpr ⟨hf, hfs⟩) (fun _ _ hv => hv) v

end Json

open Json

/-! ## Keys of parts -/

theorem kind_sortedFields (v : Json) : v.sortedFields.kind = v.kind := by
  cases v <;> rfl

theorem kind_eq_of_keyText {v w : Json} (h : keyText v = keyText w) : v.kind = w.kind := by
  rw [← kind_sortedFields v, ← kind_sortedFields w]
  exact kind_eq_of_append (congrArg (· ++ []) (chars_eq_of_keyText h))

theorem keyText_arr_congr {vs ws : List Json} (h : vs.map keyText = ws.map keyText) :
    keyText (.arr vs) = keyText (.arr ws) := by
  have htexts : (vs.map sortedFields).map text = (ws.map sortedFields).map text := by
    rw [List.map_map, List.map_map]
    exact h
  refine congrArg String.ofList ?_
  rw [sortedFields, sortedFields, sortedFieldsItems_eq_map, sortedFieldsItems_eq_map]
  exact chars_arr_congr (map_text_eq_iff.mp htexts)

/-- Entries under distinct names are sorted in one way only. -/
theorem mergeSort_eq_of_perm {α : Type} {fs gs : List (String × α)} (hperm : fs.Perm gs)
    (hdistinct : (fs.map Prod.fst).Nodup) :
    (fs.mergeSort fun f g => textLe f.1 g.1) = gs.mergeSort fun f g => textLe f.1 g.1 := by
  have hsorted : ∀ es : List (String × α),
      (es.mergeSort fun f g => textLe f.1 g.1).Pairwise fun f g => textLe f.1 g.1 = true := by
    refine List.pairwise_mergeSort (fun f g h hfg hgh => ?_) fun f g => ?_
    · exact decide_eq_true (String.le_trans (of_decide_eq_true hfg) (of_decide_eq_true hgh))
    · rw [Bool.or_eq_true]
      exact (String.le_total f.1 g.1).imp decide_eq_true decide_eq_true
  have hsame := ((List.mergeSort_perm fs fun f g => textLe f.1 g.1).trans hperm).trans
    (List.mergeSort_perm gs fun f g => textLe f.1 g.1).symm
  refine hsame.eq_of_pairwise (fun f g hf hg hfg hgf => ?_) (hsorted fs) (hsorted gs)
  have hname : f.1 = g.1 := String.le_antisymm (of_decide_eq_true hfg) (of_decide_eq_true hgf)
  exact List.inj_on_of_nodup_map hdistinct (List.mem_mergeSort.mp hf)
    (hperm.mem_iff.mpr (List.mem_mergeSort.mp hg)) hname

theorem keyText_obj_of_perm {fs gs : List (String × Json)} (hdistinct : (namesOf fs).Nodup)
    (hperm : (fs.map keyField).Perm (gs.map keyField)) : keyText (.obj fs) = keyText (.obj gs) := by
  refine congrArg String.ofList (chars_obj_congr ?_)
  rw [map_fieldText_sortedFields, map_fieldText_sortedFields]
  refine mergeSort_eq_of_perm (hperm.map _) ?_
  rw [List.map_map, List.map_map]
  exact hdistinct

/-- Objects with one key show the same of their fields, once those of the first are permuted. -/
theorem exists_perm_of_keyText_obj {fs gs : List (String × Json)}
    (h : keyText (.obj fs) = keyText (.obj gs)) :
    ∃ fs', fs.Perm fs' ∧ fs'.map keyField = gs.map keyField := by
  have hcomp : Relation.Comp (List.Forall₂ fun f k => keyField f = k) List.Perm fs
      (gs.map keyField) :=
    ⟨fs.map keyField, List.forall₂_map_right_iff.mpr (List.forall₂_same.mpr fun _ _ => rfl),
      perm_of_keyText_obj h⟩
  rw [List.forall₂_comp_perm_eq_perm_comp_forall₂] at hcomp
  obtain ⟨fs', hperm, hfields⟩ := hcomp
  exact ⟨fs', hperm, List.forall₂_eq_eq_eq ▸ List.forall₂_map_left_iff.mpr hfields⟩

theorem map_keyField_eq_iff {fs gs : List (String × Json)} :
    fs.map keyField = gs.map keyField ↔ namesOf fs = namesOf gs ∧
      (fs.map Prod.snd).map keyText = (gs.map Prod.snd).map keyText := by
  have hnames : ∀ es : List (String × Json), (es.map keyField).map Prod.fst = namesOf es :=
    fun es => List.map_map ..
  have hkeys : ∀ es : List (String × Json),
      (es.map keyField).map Prod.snd = (es.map Prod.snd).map keyText := by
    intro es
    rw [List.map_map, List.map_map]
    rfl
  constructor
  · intro h
    rw [← hnames, ← hnames, ← hkeys, ← hkeys, h]
    exact ⟨rfl, rfl⟩
  · rintro ⟨h, h'⟩
    rw [List.zip_of_prod (hnames fs) (hkeys fs), List.zip_of_prod (hnames gs) (hkeys gs), h, h']

/-! ## Keys of values -/

theorem Json.distinctItems_iff {vs : List Json} : DistinctItems vs ↔ ∀ v ∈ vs, v.Distinct := by
  induction vs with
  | nil => simp [DistinctItems]
  | cons v vs ih => rw [DistinctItems, ih, List.forall_mem_cons]

theorem keyText_of_isScalar {v : Json} (h : v.isScalar = true) : keyText v = v.text :=
  congrArg Json.text (sortedFields_of_isScalar h)

theorem isScalar_iff_kind {v : Json} :
    v.isScalar = true ↔ v.kind ≠ .array ∧ v.kind ≠ .object := by
  cases v <;> simp [isScalar, kind]

theorem map_keyText_of_forall₂ {vs ws : List Json} (h : List.Forall₂ Alike vs ws)
    (heach : ∀ v ∈ vs, ∀ {w : Json}, v.Alike w → keyText v = keyText w) :
    vs.map keyText = ws.map keyText := by
  induction h with
  | nil => rfl
  | cons hvw _ ih =>
    rw [List.map_cons, List.map_cons, heach _ List.mem_cons_self hvw,
      ih fun v hv => heach v (List.mem_cons_of_mem _ hv)]

theorem forall₂_of_map_keyText {vs ws : List Json} (h : vs.map keyText = ws.map keyText)
    (heach : ∀ v ∈ vs, ∀ {w : Json}, keyText v = keyText w → v.Alike w) :
    List.Forall₂ Alike vs ws := by
  induction vs generalizing ws with
  | nil =>
    rw [List.map_eq_nil_iff.mp h.symm]
    exact .nil
  | cons v vs ih =>
    cases ws with
    | nil => exact absurd h (List.cons_ne_nil _ _)
    | cons w ws =>
      obtain ⟨hvw, hrest⟩ := List.cons.inj h
      exact .cons (heach v List.mem_cons_self hvw)
        (ih hrest fun v hv => heach v (List.mem_cons_of_mem _ hv))

theorem Json.Alike.keyText_eq {v w : Json} (hv : v.Distinct) (h : Alike v w) :
    keyText v = keyText w := by
  induction v using nestedInduction generalizing w with
  | scalar v hscalar =>
    cases h with
    | scalar _ hw htext => rw [keyText_of_isScalar hscalar, keyText_of_isScalar hw, htext]
    | arr | obj => exact nomatch hscalar
  | arr vs ih =>
    have heach := distinctItems_iff.mp hv
    cases h with
    | scalar hscalar => exact nomatch hscalar
    | arr hitems =>
      exact keyText_arr_congr
        (map_keyText_of_forall₂ hitems fun v hmem _ => ih v hmem (heach v hmem))
  | obj fs ih =>
    obtain ⟨hdistinct, hfields⟩ := hv
    have heach := distinctFields_iff.mp hfields
    cases h with
    | scalar hscalar => exact nomatch hscalar
    | obj hperm hnames hvalues =>
      refine keyText_obj_of_perm hdistinct ((hperm.map keyField).trans (.of_eq ?_))
      refine map_keyField_eq_iff.mpr
        ⟨hnames, map_keyText_of_forall₂ hvalues fun v hmem _ => ?_⟩
      obtain ⟨f, hf, rfl⟩ := List.mem_map.mp hmem
      have hf := hperm.mem_iff.mpr hf
      exact ih f hf (heach f hf)

theorem Json.alike_of_keyText {v w : Json} (h : keyText v = keyText w) : Alike v w := by
  have hkind := kind_eq_of_keyText h
  induction v using nestedInduction generalizing w with
  | scalar v hscalar =>
    have hscalar' : w.isScalar = true :=
      isScalar_iff_kind.mpr (hkind ▸ isScalar_iff_kind.mp hscalar)
    rw [keyText_of_isScalar hscalar, keyText_of_isScalar hscalar'] at h
    exact .scalar hscalar hscalar' h
  | arr vs ih =>
    cases w with
    | arr ws =>
      exact .arr (forall₂_of_map_keyText (map_keyText_eq h) fun v hv _ hvw =>
        ih v hv hvw (kind_eq_of_keyText hvw))
    | _ => cases hkind
  | obj fs ih =>
    cases w with
    | obj gs =>
      obtain ⟨fs', hperm, hfields⟩ := exists_perm_of_keyText_obj h
      obtain ⟨hnames, hkeys⟩ := map_keyField_eq_iff.mp hfields
      refine .obj hperm hnames (forall₂_of_map_keyText hkeys fun v hv _ hvw => ?_)
      obtain ⟨f, hf, rfl⟩ := List.mem_map.mp hv
      exact ih f (hperm.mem_iff.mpr hf) hvw (kind_eq_of_keyText hvw)
    | _ => cases hkind

theorem eq_null_of_kind {v : Json} (h : v.kind = .null) : v = .null := by
  cases v with
  | null => rfl
  | _ => exact nomatch h

theorem keyOfJson?_eq_none_iff {v : Json} : keyOfJson? v = none ↔ v = .null := by
  cases v with
  | null => exact iff_of_true rfl rfl
  | _ => exact iff_of_false nofun nofun

theorem keyOfJson?_of_ne_null {v : Json} (h : v ≠ .null) : keyOfJson? v = some (keyText v) := by
  cases v with
  | null => exact absurd rfl h
  | _ => rfl

/-- Null has no key, and its text is that of no other value. -/
theorem keyOfJson?_eq_iff {v w : Json} : keyOfJson? v = keyOfJson? w ↔ keyText v = keyText w := by
  constructor
  · intro h
    by_cases hv : v = .null
    · rw [keyOfJson?_eq_none_iff.mpr hv] at h
      rw [hv, keyOfJson?_eq_none_iff.mp h.symm]
    · have hw : w ≠ .null := fun hw => hv (keyOfJson?_eq_none_iff.mp (h.trans (hw ▸ rfl)))
      rw [keyOfJson?_of_ne_null hv, keyOfJson?_of_ne_null hw] at h
      exact Option.some.inj h
  · intro h
    have hkind := kind_eq_of_keyText h
    by_cases hv : v = .null
    · subst hv
      rw [eq_null_of_kind hkind.symm]
    · have hw : w ≠ .null := fun hw => hv (eq_null_of_kind (hkind.trans (hw ▸ rfl)))
      rw [keyOfJson?_of_ne_null hv, keyOfJson?_of_ne_null hw, h]

/-- Two values, in the first of which no object repeats a name, have one key exactly if they differ
in the order of object fields only; and null alone has no key. -/
theorem key_eq_iff {v w : Json} (hdistinct : v.Distinct) :
    (keyOfJson? v = keyOfJson? w ↔ Alike v w) ∧ (keyOfJson? v = none ↔ v = .null) :=
  ⟨keyOfJson?_eq_iff.trans ⟨alike_of_keyText, fun h => h.keyText_eq hdistinct⟩,
    keyOfJson?_eq_none_iff⟩

def integerOne : Json := .ofUInt64 1

def doubleOne : Json := .num (.float ⟨false, 0x3FF0000000000000, by decide⟩)

/-- Objects in an array in an object. -/
def nestedFields : Json :=
  .obj [("a", .arr [.obj [("y", integerOne), ("x", .obj [("q", integerOne), ("p", .null)])]])]

def nestedFieldsMoved : Json :=
  .obj [("a", .arr [.obj [("x", .obj [("p", .null), ("q", integerOne)]), ("y", integerOne)]])]

/-- Fields change places at two levels; an integer is not a double. -/
theorem key_eq_iff_nested :
    nestedFields.Distinct ∧ keyOfJson? nestedFields = keyOfJson? nestedFieldsMoved ∧
      integerOne.Distinct ∧ keyOfJson? integerOne ≠ keyOfJson? doubleOne := by
  have hdistinct : nestedFields.Distinct := by
    simp [nestedFields, integerOne, ofUInt64, Distinct, DistinctItems, DistinctFields, namesOf]
  have hsame : ∀ {v : Json}, v.isScalar = true → Alike v v := fun h => .scalar h h rfl
  have hinner : Alike (.obj [("q", integerOne), ("p", .null)])
      (.obj [("p", .null), ("q", integerOne)]) :=
    .obj (.swap ..) rfl (.cons (hsame rfl) (.cons (hsame rfl) .nil))
  have houter : Alike nestedFields nestedFieldsMoved := by
    refine .obj (.refl _) rfl (.cons (.arr (.cons ?_ .nil)) .nil)
    exact .obj (.swap ..) rfl (.cons hinner (.cons (hsame rfl) .nil))
  refine ⟨hdistinct, (key_eq_iff hdistinct).1.mpr houter, trivial, fun h => ?_⟩
  have halike := (key_eq_iff (v := integerOne) trivial).1.mp h
  cases halike with
  | scalar _ _ htext => exact absurd htext (by decide)

end ContentTables
