import ContentTables.Cache.Key
import ContentTables.Proofs.Json.TextInjective

/-!
# What a key tells of its value

* `sortedFields_of_isScalar`, `sortedFields_arr_eq_self` : values with no fields to sort;
* `eq_of_keyText_str`, `map_keyText_eq` : a key determines a string, and the keys of the items of an
  array;
* `keyText_obj_congr`, `perm_of_keyText_obj` : the keys of the fields determine the key of an object,
  which determines them up to their order;
* `keyFields_eq` : and in their order, for objects that list the same names in the same order.
-/

namespace ContentTables

open Json

/-- What a key shows of a field. -/
def keyField (f : String × Json) : String × String := (f.1, keyText f.2)

theorem chars_eq_of_keyText {v w : Json} (h : keyText v = keyText w) :
    v.sortedFields.chars = w.sortedFields.chars :=
  String.ofList_injective h

theorem sortedFieldsItems_eq_map (vs : List Json) :
    sortedFieldsItems vs = vs.map sortedFields := by
  induction vs with
  | nil => rfl
  | cons v vs ih => rw [sortedFieldsItems, ih, List.map_cons]

theorem sortedFieldsEntries_eq_map (fs : List (String × Json)) :
    sortedFieldsEntries fs = fs.map fun f => (f.1, f.2.sortedFields) := by
  induction fs with
  | nil => rfl
  | cons f fs ih => rw [sortedFieldsEntries, ih, List.map_cons]

theorem sortedFields_of_isScalar {v : Json} (h : v.isScalar = true) : v.sortedFields = v := by
  cases v with
  | arr _ => exact absurd h Bool.false_ne_true
  | obj _ => exact absurd h Bool.false_ne_true
  | _ => rfl

theorem sortedFields_arr_eq_self {vs : List Json} (h : ∀ v ∈ vs, v.sortedFields = v) :
    (arr vs).sortedFields = arr vs := by
  rw [sortedFields, sortedFieldsItems_eq_map, List.map_congr_left h, List.map_id']

theorem eq_of_keyText_str {s t : String} (h : keyText (.str s) = keyText (.str t)) : s = t := by
  have hchars := chars_eq_of_keyText h
  rw [sortedFields, sortedFields] at hchars
  · exact chars_str_inj hchars
  all_goals nofun

theorem map_keyText_eq {vs ws : List Json} (h : keyText (.arr vs) = keyText (.arr ws)) :
    vs.map keyText = ws.map keyText := by
  have hchars := chars_eq_of_keyText h
  rw [sortedFields, sortedFields, sortedFieldsItems_eq_map, sortedFieldsItems_eq_map] at hchars
  have htexts := congrArg (List.map String.ofList) (chars_arr_inj hchars)
  rw [List.map_map, List.map_map, List.map_map, List.map_map] at htexts
  exact htexts

/-- Sorting by name does not look at the values. -/
theorem map_fieldText_sortedFields (fs : List (String × Json)) :
    (sortedByName (sortedFieldsEntries fs)).map fieldText =
      ((fs.map keyField).map fun f => (f.1, f.2.toList)).mergeSort fun f g => textLe f.1 g.1 := by
  have hmap : (sortedByName (sortedFieldsEntries fs)).map fieldText =
      ((sortedFieldsEntries fs).map fieldText).mergeSort fun f g => textLe f.1 g.1 :=
    List.map_mergeSort fun _ _ _ _ => rfl
  rw [hmap, sortedFieldsEntries_eq_map, List.map_map, List.map_map]
  refine congrArg (List.mergeSort · _) (List.map_congr_left fun f _ => ?_)
  exact Prod.ext rfl String.toList_ofList.symm

theorem keyText_obj_congr {fs gs : List (String × Json)} (h : fs.map keyField = gs.map keyField) :
    keyText (.obj fs) = keyText (.obj gs) := by
  refine congrArg String.ofList (chars_obj_congr ?_)
  rw [map_fieldText_sortedFields, map_fieldText_sortedFields, h]

theorem perm_of_keyText_obj {fs gs : List (String × Json)}
    (h : keyText (.obj fs) = keyText (.obj gs)) : (fs.map keyField).Perm (gs.map keyField) := by
  have hchars := chars_eq_of_keyText h
  rw [sortedFields, sortedFields] at hchars
  have hfields := chars_obj_inj hchars
  rw [map_fieldText_sortedFields, map_fieldText_sortedFields] at hfields
  have hperm := (List.mergeSort_perm _ _).symm.trans
    ((List.Perm.of_eq hfields).trans (List.mergeSort_perm _ _))
  have hkeys := hperm.map fun f => (f.1, String.ofList f.2)
  have hback : ∀ es : List (String × String),
      (es.map fun f => (f.1, f.2.toList)).map (fun f => (f.1, String.ofList f.2)) = es := by
    intro es
    induction es with
    | nil => rfl
    | cons e es ih => rw [List.map_cons, List.map_cons, ih, String.ofList_toList]
  rw [hback, hback] at hkeys
  exact hkeys

/-- Entries under distinct names keep their places when the names do. -/
theorem eq_of_perm_of_names {α : Type} {fs gs : List (String × α)} (hperm : fs.Perm gs)
    (hnames : fs.map Prod.fst = gs.map Prod.fst) (hdistinct : (fs.map Prod.fst).Nodup) : fs = gs := by
  induction fs generalizing gs with
  | nil => exact hperm.nil_eq
  | cons f fs ih =>
    cases gs with
    | nil => exact absurd hnames (List.cons_ne_nil _ _)
    | cons g gs =>
      obtain ⟨hname, hrest⟩ := List.cons.inj hnames
      obtain ⟨hfresh, hdistinct⟩ := List.nodup_cons.mp hdistinct
      have hfg : f = g := by
        rcases List.mem_cons.mp (hperm.mem_iff.mpr List.mem_cons_self) with hg | hg
        · exact hg.symm
        · exact absurd (hname ▸ List.mem_map_of_mem hg) hfresh
      subst hfg
      rw [ih (List.Perm.cons_inv hperm) hrest hdistinct]

theorem keyFields_eq {fs gs : List (String × Json)} (h : keyText (.obj fs) = keyText (.obj gs))
    (hnames : fs.map Prod.fst = gs.map Prod.fst) (hdistinct : (fs.map Prod.fst).Nodup) :
    fs.map keyField = gs.map keyField := by
  have hfst : ∀ es : List (String × Json), (es.map keyField).map Prod.fst = es.map Prod.fst := by
    intro es
    rw [List.map_map]
    rfl
  refine eq_of_perm_of_names (perm_of_keyText_obj h) ?_ ?_
  · rw [hfst, hfst, hnames]
  · rw [hfst]
    exact hdistinct

end ContentTables
