import ContentTables.Proofs.Query.InsertedRows
import ContentTables.Proofs.Sql.ColumnText

/-!
# Required columns of rows that are inserted

The clause of a column says `NOT NULL` where the column is required, whether or not it has a
default. An insert asks for a value only where there is no default.

* `Column.RefusesNull` : the column takes no null, by what its clause says;
* `Column.TakesNull` : yet an insert lets null through to it, for it has a default and is no stamp;
* `get?_prepareInsert_eq_null_iff` : null is bound to a column that refuses it exactly if the row
  gives null to it and it takes it;
* `nulls_not_bound_iff` : what has to be so for no column to be bound to a null that it refuses.
-/

namespace ContentTables

open Definition

namespace Column

variable {name : String} {c : Column} {v : Json}

/-- To a column that counts by itself, null means the next number. -/
def RefusesNull (name : String) (c : Column) : Prop :=
  ∃ said, readColumn? (columnClause name c) = some said ∧ said.required = true ∧
    said.autoIncrement = false

def TakesNull (c : Column) : Prop := c.default ≠ none ∧ c.kind ≠ .timestamp

theorem refusesNull_iff : c.RefusesNull name ↔ c.required = true ∧ c.autoIncrement = false := by
  rw [RefusesNull, readColumn?_columnClause]
  constructor
  · rintro ⟨said, hsaid, h⟩
    obtain rfl := Option.some.inj hsaid
    exact h
  · intro h
    exact ⟨c.said name, rfl, h⟩

theorem encode_ne_null (c : Column) (h : v ≠ .null) : c.encode v ≠ .null := by
  unfold encode
  cases v with
  | null => exact absurd rfl h
  | _ => cases c.kind <;> simp [Json.isNull, encodeJson, Json.ofUInt64]

end Column

namespace TableSchema

variable {schema : TableSchema} {now : String} {row prepared : Row} {name : String} {c : Column}

/-- What the insert bound to null was null in the row. -/
theorem InsertedFrom.get?_eq_null_iff (h : schema.InsertedFrom now row prepared)
    (hc : schema.get? name = some c) : prepared.get? name = some .null ↔
      row.get? name = some .null ∧ ¬(c.kind = .timestamp ∧ c.default ≠ none) := by
  constructor
  · intro hnull
    have hunfilled : ¬row.Fills name := by
      rintro ⟨v, hv, hne⟩
      have hencoded := Option.some.inj ((h.filled name c v hc hv hne).symm.trans hnull)
      exact c.encode_ne_null hne hencoded
    have hplain : ¬(c.kind = .timestamp ∧ c.default ≠ none) := by
      rintro ⟨hkind, hdefault⟩
      have hstamp := h.stamped name c hc hkind hdefault hunfilled
      exact nomatch Option.some.inj (hstamp.symm.trans hnull)
    refine ⟨?_, hplain⟩
    -- the row has the column, for it is not stamped and yet inserted
    rw [h.eq_insertedRow, get?_insertedRow, hc, Option.bind_some] at hnull
    have hunstamped : ¬c.isAutoStamped = true := fun h => hplain (Column.isAutoStamped_iff.mp h)
    cases hv : row.get? name with
    | none => simp [hv, Column.inserted, hunstamped] at hnull
    | some v =>
      by_contra hne
      exact hunfilled ⟨v, hv, fun hv' => hne (congrArg some hv')⟩
  · rintro ⟨hnull, hplain⟩
    exact h.null name c hc hnull hplain

theorem get?_prepareInsert_eq_null_iff (h : schema.prepareInsert now row = .ok prepared)
    (hc : schema.get? name = some c) (hrefuses : c.RefusesNull name) :
    prepared.get? name = some .null ↔ c.TakesNull ∧ row.get? name = some .null := by
  obtain ⟨hnothing, hinserted⟩ := prepareInsert_eq_ok_iff.mp h
  obtain ⟨hrequired, hcounted⟩ := Column.refusesNull_iff.mp hrefuses
  rw [hinserted.get?_eq_null_iff hc]
  constructor
  · rintro ⟨hnull, hplain⟩
    have hdefault : c.default ≠ none := by
      intro hdefault
      refine hnothing name c hc ⟨hrequired, hdefault, hcounted, ?_⟩
      rintro ⟨v, hv, hne⟩
      exact hne (Option.some.inj (hv.symm.trans hnull))
    exact ⟨⟨hdefault, fun hkind => hplain ⟨hkind, hdefault⟩⟩, hnull⟩
  · rintro ⟨⟨_, hkind⟩, hnull⟩
    exact ⟨hnull, fun h => hkind h.1⟩

/-- No column of a row that is inserted is bound to a null that it refuses, exactly if the row that
was given has no null for a column that is required, has a default, does not count by itself and is
no timestamp. -/
theorem nulls_not_bound_iff (h : schema.prepareInsert now row = .ok prepared) :
    (∀ name c v, schema.get? name = some c → c.RefusesNull name → prepared.get? name = some v →
      v ≠ .null) ↔
    ∀ name c, schema.get? name = some c → c.required = true → c.default ≠ none →
      c.autoIncrement = false → c.kind ≠ .timestamp → row.get? name ≠ some .null := by
  constructor
  · intro hbound name c hc hrequired hdefault hcounted hkind hnull
    have hrefuses : c.RefusesNull name := Column.refusesNull_iff.mpr ⟨hrequired, hcounted⟩
    have htaken := (get?_prepareInsert_eq_null_iff h hc hrefuses).mpr ⟨⟨hdefault, hkind⟩, hnull⟩
    exact hbound name c .null hc hrefuses htaken rfl
  · rintro hgiven name c v hc hrefuses hv rfl
    obtain ⟨⟨hdefault, hkind⟩, hnull⟩ := (get?_prepareInsert_eq_null_iff h hc hrefuses).mp hv
    obtain ⟨hrequired, hcounted⟩ := Column.refusesNull_iff.mp hrefuses
    exact hgiven name c hc hrequired hdefault hcounted hkind hnull

/-- Tickets with a number that counts by itself, a date and a state, all of them required. -/
def tickets : TableSchema :=
  .ofList [("id", { kind := .bigint, required := true, primary := true, autoIncrement := true }),
    ("opened", { Column.currentTimestamp with required := true }),
    ("state", { Column.string 10 with required := true, default := some (.str "open") })]

/-- The number is null and the date is stamped; the state is left to its default. -/
theorem nulls_not_bound_tickets :
    let row : Row := .ofList [("id", .null), ("opened", .null)]
    ∃ prepared, tickets.prepareInsert "now" row = .ok prepared ∧
      prepared.get? "id" = some .null ∧
      ∀ name c v, tickets.get? name = some c → c.RefusesNull name →
        prepared.get? name = some v → v ≠ .null := by
  intro row
  have hprepared : tickets.prepareInsert "now" row = .ok _ := rfl
  refine ⟨_, hprepared, rfl, (nulls_not_bound_iff hprepared).mpr ?_⟩
  intro name c hc hrequired hdefault hcounted hkind hnull
  have hid : name = "id" ∨ name = "opened" := by
    have hmem := OrderedMap.contains_iff.mp (Option.isSome_of_mem hnull)
    simpa [row, OrderedMap.names, namesOf, OrderedMap.ofList, ofPairs, putEntry] using hmem
  rcases hid with rfl | rfl
  · obtain rfl := Option.some.inj hc
    exact Bool.false_ne_true hcounted.symm
  · obtain rfl := Option.some.inj hc
    exact hkind rfl

/-- A state that is null is bound as null, though its column is `NOT NULL`. -/
theorem nulls_bound_defaultedState :
    let row : Row := .ofList [("state", .null)]
    ∃ prepared c, tickets.prepareInsert "now" row = .ok prepared ∧
      tickets.get? "state" = some c ∧
      columnClause "state" c = "\x60state\x60 VARCHAR(10) NOT NULL DEFAULT 'open'" ∧
      c.RefusesNull "state" ∧ prepared.get? "state" = some .null := by
  intro row
  exact ⟨_, _, rfl, rfl, by decide, Column.refusesNull_iff.mpr ⟨rfl, rfl⟩, rfl⟩

end TableSchema

end ContentTables
