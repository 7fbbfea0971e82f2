import ContentTables.Proofs.Condition.Reordered
import ContentTables.Query.Select

/-!
# Queries with one cache key

* `SelectQuery.Alike` : queries that differ in the order of the parts of their conditions only;
* `SelectQuery.cacheKey_eq_iff` : these and no others have one key;
* `SelectQuery.alike_of_cacheKey` : so queries with one key ask for the same rows.
-/

namespace ContentTables

theorem strings_inj {xs ys : List String} (h : keyText (.strings xs) = keyText (.strings ys)) :
    xs = ys := by
  have hkeys := map_keyText_eq h
  rw [List.map_map, List.map_map] at hkeys
  exact List.map_injective_iff.mpr (fun _ _ => eq_of_keyText_str) hkeys

theorem ofString?_inj {x y : Option String} (h : keyText (.ofString? x) = keyText (.ofString? y)) :
    x = y := by
  cases x <;> cases y
  · rfl
  · exact nomatch chars_eq_of_keyText h
  · exact nomatch chars_eq_of_keyText h
  · exact congrArg some (eq_of_keyText_str h)

theorem ofUInt64_inj {m n : UInt64} (h : keyText (.ofUInt64 m) = keyText (.ofUInt64 n)) : m = n := by
  have hval : (m.toNat : Int) = n.toNat := Json.intChars_inj (chars_eq_of_keyText h)
  exact UInt64.toNat_inj.mp (Int.ofNat.inj hval)

theorem Order.sql_inj {a b : Order} (h : a.sql = b.sql) : a = b := by
  revert h
  cases a <;> cases b <;> decide

theorem Selection.json_inj {a b : Selection} (h : keyText a.json = keyText b.json) : a = b := by
  cases a <;> cases b
  case columns.columns xs ys =>
    have hlist := (keyFields_eq h rfl (by decide : ["list"].Nodup))
    exact congrArg columns (strings_inj (Prod.mk.inj (List.cons.inj hlist).1).2)
  case all.all => rfl
  case count.count => rfl
  case all.count => exact absurd (eq_of_keyText_str h) (by decide)
  case count.all => exact absurd (eq_of_keyText_str h) (by decide)
  all_goals exact nomatch Json.kind_eq_of_append (congrArg (· ++ []) (chars_eq_of_keyText h))

namespace SelectQuery

structure Alike (q r : SelectQuery) : Prop where
  table : q.table = r.table
  selection : q.selection = r.selection
  condition : q.condition.Reordered r.condition
  groupBy : q.groupBy = r.groupBy
  orderBy : q.orderBy = r.orderBy
  order : q.order = r.order
  page : q.page = r.page
  perPage : q.perPage = r.perPage

theorem Alike.cacheKey_eq {q r : SelectQuery} (hq : q.condition.WellShaped)
    (hr : r.condition.WellShaped) (h : q.Alike r) : q.cacheKey = r.cacheKey := by
  have hcondition := h.condition.keyText_eq hq hr
  unfold cacheKey json
  rw [h.table, h.selection, h.groupBy, h.orderBy, h.order, h.page, h.perPage]
  exact keyText_obj_congr (by simp only [List.map_cons, List.map_nil, keyField, hcondition])

theorem Alike.of_cacheKey {q r : SelectQuery} (hq : q.condition.WellShaped)
    (hr : r.condition.WellShaped) (h : q.cacheKey = r.cacheKey) : q.Alike r := by
  -- the names of the fields are the same for every query
  have hdistinct : (["table", "columns", "condition", "group_by", "order_by", "order", "page",
      "per_page"] : List String).Nodup := by decide
  have hfields := keyFields_eq h rfl hdistinct
  simp only [List.map_cons, List.map_nil, keyField, List.cons.injEq, Prod.mk.injEq, true_and,
    and_true] at hfields
  obtain ⟨htable, hselection, hcondition, hgroup, horderBy, horder, hpage, hperPage⟩ := hfields
  exact {
    table := eq_of_keyText_str htable
    selection := Selection.json_inj hselection
    condition := Condition.reordered_of_keyText hq hr hcondition
    groupBy := strings_inj hgroup
    orderBy := ofString?_inj horderBy
    order := Order.sql_inj (eq_of_keyText_str horder)
    page := UInt32.toUInt64_inj.mp (ofUInt64_inj hpage)
    perPage := UInt32.toUInt64_inj.mp (ofUInt64_inj hperPage) }

theorem cacheKey_eq_iff {q r : SelectQuery} (hq : q.condition.WellShaped)
    (hr : r.condition.WellShaped) : q.cacheKey = r.cacheKey ↔ q.Alike r :=
  ⟨Alike.of_cacheKey hq hr, Alike.cacheKey_eq hq hr⟩

/-- The conditions of queries with one key accept the same rows, whatever the truth values of
comparisons are. -/
theorem alike_of_cacheKey (q r : SelectQuery) (hq : q.condition.WellShaped)
    (hr : r.condition.WellShaped) (h : q.cacheKey = r.cacheKey) :
    q.Alike r ∧ ∀ (τ : Type) [Lattice τ] [BoundedOrder τ] (truth : Comparison → τ),
      ReadsTexts truth → ∀ table, q.condition.value truth table = r.condition.value truth table := by
  have halike := Alike.of_cacheKey hq hr h
  exact ⟨halike, fun _ _ _ _ htruth table => halike.condition.value_eq table htruth⟩

theorem alike_of_cacheKey_swapped :
    let low : Predicate := .field "a" .equal (.scalar (.bool true))
    let high : Predicate := .field "b" .isIn (.list [.null, .str "x"])
    let q : SelectQuery := { table := "t", condition := ⟨[low, .any [high, low]]⟩ }
    let r : SelectQuery := { table := "t", condition := ⟨[.any [low, high], low]⟩ }
    q.condition.WellShaped ∧ r.condition.WellShaped ∧ q.cacheKey = r.cacheKey ∧
      q.Alike r ∧ ∀ table, q.condition.value (fun c => c.column == "a") table =
        r.condition.value (fun c => c.column == "a") table := by
  intro low high q r
  have hq : q.condition.WellShaped := rfl
  have hr : r.condition.WellShaped := rfl
  have hlow : low.Reordered low := .field (.scalar rfl)
  have hhigh : high.Reordered high := .field (.list rfl)
  have hany : Predicate.Reordered (.any [high, low]) (.any [low, high]) :=
    .any (List.Perm.swap _ _ _) (.cons hlow (.cons hhigh .nil))
  have hcondition : q.condition.Reordered r.condition :=
    ⟨_, List.Perm.swap _ _ _, .cons hany (.cons hlow .nil)⟩
  have hkey : q.cacheKey = r.cacheKey :=
    Alike.cacheKey_eq hq hr ⟨rfl, rfl, hcondition, rfl, rfl, rfl, rfl, rfl⟩
  obtain ⟨halike, hvalue⟩ := alike_of_cacheKey q r hq hr hkey
  exact ⟨hq, hr, hkey, halike, hvalue Bool _ fun _ _ _ _ _ _ => rfl⟩

end SelectQuery

end ContentTables
