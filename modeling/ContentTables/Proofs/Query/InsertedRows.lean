import ContentTables.Proofs.Entries
import ContentTables.Query.Write

/-!
# Rows that are inserted

An insert goes through the columns of the schema, and what it does with a column depends on nothing
but the column and what the row gives for it.

* `Row.Fills` : the row has a value for a column that is not null;
* `TableSchema.Missing`, `TableSchema.FirstMissing` : columns without which a row is refused, and
  the first of them;
* `TableSchema.InsertedFrom` : what is to be inserted of a row;
* `insertEntries_eq` : the walk over the columns, as a search for a missing one and a pass that
  cannot fail;
* `prepareInsert_exact` : a row is refused exactly if a column is missing, the first one is named,
  and what is inserted is what is to be inserted.
-/

namespace ContentTables

/-! ## What is to be inserted -/

def Row.Fills (row : Row) (name : String) : Prop := ∃ v, row.get? name = some v ∧ v ≠ .null

namespace TableSchema

/-- The column is required, nothing else gives it a value, and the row does not fill it. -/
structure Missing (row : Row) (name : String) (c : Column) : Prop where
  required : c.required = true
  noDefault : c.default = none
  notCounted : c.autoIncrement = false
  unfilled : ¬row.Fills name

def FirstMissing (schema : TableSchema) (row : Row) (name : String) : Prop :=
  ∃ front c back, schema.entries = front ++ (name, c) :: back ∧ Missing row name c ∧
    ∀ e ∈ front, ¬Missing row e.1 e.2

structure InsertedFrom (schema : TableSchema) (now : String) (row prepared : Row) : Prop where
  /-- In the order of the schema, the columns that the row has, be it with null, and timestamps with
  a default. -/
  names : prepared.names = namesOf (schema.entries.filter fun (name, c) =>
    row.contains name || (c.kind == .timestamp && c.default.isSome))
  filled : ∀ name c v, schema.get? name = some c → row.get? name = some v → v ≠ .null →
    prepared.get? name = some (c.encode v)
  stamped : ∀ name c, schema.get? name = some c → c.kind = .timestamp → c.default ≠ none →
    ¬row.Fills name → prepared.get? name = some (.str now)
  null : ∀ name c, schema.get? name = some c → row.get? name = some .null →
    ¬(c.kind = .timestamp ∧ c.default ≠ none) → prepared.get? name = some .null
  unknown : ∀ name, schema.get? name = none → prepared.get? name = none

end TableSchema

/-! ## One column -/

/-- What a column gets of what the row gives for it. -/
def Column.inserted (c : Column) (now : String) : Option Json → Option Json
  | none => if c.isAutoStamped then some (.str now) else none
  | some .null => some (if c.isAutoStamped then .str now else .null)
  | some v => some (c.encode v)

namespace Column

variable {c : Column} {now : String} {v : Json}

theorem isAutoStamped_iff : c.isAutoStamped = true ↔ c.kind = .timestamp ∧ c.default ≠ none := by
  rw [isAutoStamped, Bool.and_eq_true, beq_iff_eq, Option.isSome_iff_ne_none]

theorem inserted_of_ne_null (h : v ≠ .null) : c.inserted now (some v) = some (c.encode v) := by
  cases v with
  | null => exact absurd rfl h
  | _ => rfl

theorem isSome_inserted (c : Column) (now : String) (given : Option Json) :
    (c.inserted now given).isSome = (given.isSome || c.isAutoStamped) := by
  cases given with
  | none => cases hstamp : c.isAutoStamped <;> simp [inserted, hstamp]
  | some v => cases v <;> rfl

end Column

namespace TableSchema

variable {now : String} {row prepared : Row} {schema : TableSchema} {name : String} {c : Column}

/-- The column must be supplied, and is not. -/
def lacks (row : Row) (e : String × Column) : Bool :=
  e.2.mustBeSupplied && (row.get? e.1).all Json.isNull

def insertedField? (now : String) (row : Row) (e : String × Column) : Option (String × Json) :=
  (e.2.inserted now (row.get? e.1)).map fun v => (e.1, v)

theorem unfilled_iff : ¬row.Fills name ↔ (row.get? name).all Json.isNull = true := by
  have hnull : ∀ v : Json, v.isNull = true ↔ v = .null := by
    intro v
    cases v <;> simp [Json.isNull]
  rw [Row.Fills, Option.all_eq_true_iff_get]
  cases row.get? name <;> simp [hnull]

theorem lacks_iff {e : String × Column} : lacks row e = true ↔ Missing row e.1 e.2 := by
  rw [lacks, Column.mustBeSupplied, Bool.and_eq_true, Bool.and_eq_true, Bool.and_eq_true,
    ← unfilled_iff, Option.isNone_iff_eq_none, Bool.not_eq_true']
  constructor
  · rintro ⟨⟨⟨hrequired, hdefault⟩, hcounted⟩, hunfilled⟩
    exact ⟨hrequired, hdefault, hcounted, hunfilled⟩
  · intro h
    exact ⟨⟨⟨h.required, h.noDefault⟩, h.notCounted⟩, h.unfilled⟩

theorem insertEntry_eq (now : String) (row : Row) (name : String) (c : Column) :
    insertEntry now row name c =
      if lacks row (name, c) then .error (.columnRequired name)
      else .ok (insertedField? now row (name, c)).toList := by
  unfold insertEntry lacks insertedField?
  cases row.get? name with
  | none =>
    cases c.mustBeSupplied <;> cases hstamp : c.isAutoStamped <;> simp [Column.inserted, hstamp]
  | some v =>
    cases v with
    | null =>
      cases c.mustBeSupplied <;> cases hstamp : c.isAutoStamped <;>
        simp [Column.inserted, Json.isNull, hstamp]
    | _ => simp [Column.inserted, Json.isNull]

/-! ## All columns -/

theorem insertEntries_eq (now : String) (row : Row) (columns : List (String × Column)) :
    insertEntries now row columns =
      match columns.find? (lacks row) with
      | some e => .error (.columnRequired e.1)
      | none => .ok (columns.filterMap (insertedField? now row)) := by
  induction columns with
  | nil => rfl
  | cons e columns ih =>
    obtain ⟨name, c⟩ := e
    rw [insertEntries, insertEntry_eq, ih]
    by_cases hlacks : lacks row (name, c) = true
    · rw [List.find?_cons_of_pos hlacks, if_pos hlacks]
      rfl
    · rw [List.find?_cons_of_neg hlacks, if_neg hlacks]
      cases hfind : columns.find? (lacks row) with
      | some e => rfl
      | none =>
        rw [List.filterMap_cons]
        cases insertedField? now row (name, c) <;> rfl

theorem namesOf_insertedEntries (now : String) (row : Row) (columns : List (String × Column)) :
    namesOf (columns.filterMap (insertedField? now row)) =
      namesOf (columns.filter fun (name, c) => row.contains name || c.isAutoStamped) := by
  induction columns with
  | nil => rfl
  | cons e columns ih =>
    obtain ⟨name, c⟩ := e
    have hsome := c.isSome_inserted now (row.get? name)
    simp only [List.filterMap_cons, List.filter_cons, insertedField?, OrderedMap.contains, ← hsome]
    cases c.inserted now (row.get? name) with
    | none => exact ih
    | some v => exact congrArg (name :: ·) ih

/-- The row to be inserted where no column is missing. -/
def insertedRow (schema : TableSchema) (now : String) (row : Row) : Row where
  entries := schema.entries.filterMap (insertedField? now row)
  distinct := by
    rw [namesOf_insertedEntries]
    exact schema.distinct.sublist (List.filter_sublist.map Prod.fst)

theorem prepareInsert_eq (schema : TableSchema) (now : String) (row : Row) :
    schema.prepareInsert now row =
      match schema.entries.find? (lacks row) with
      | some e => .error (.columnRequired e.1)
      | none => .ok (schema.insertedRow now row) := by
  rw [prepareInsert, insertEntries_eq]
  cases schema.entries.find? (lacks row) with
  | some e => rfl
  | none =>
    have hentries := ofPairs_of_nodup (schema.insertedRow now row).distinct
    exact congrArg Except.ok (OrderedMap.ext hentries)

theorem get?_insertedRow (schema : TableSchema) (now : String) (row : Row) (name : String) :
    (schema.insertedRow now row).get? name =
      (schema.get? name).bind fun c => c.inserted now (row.get? name) := by
  apply Option.ext
  intro v
  rw [OrderedMap.get?_eq_some_iff, Option.bind_eq_some_iff]
  constructor
  · intro h
    obtain ⟨⟨n, c⟩, hc, hentry⟩ := List.mem_filterMap.mp h
    obtain ⟨w, hw, heq⟩ := Option.map_eq_some_iff.mp hentry
    obtain ⟨rfl, rfl⟩ := Prod.mk.inj heq
    exact ⟨c, OrderedMap.get?_eq_some_iff.mpr hc, hw⟩
  · rintro ⟨c, hc, hv⟩
    refine List.mem_filterMap.mpr ⟨(name, c), OrderedMap.get?_eq_some_iff.mp hc, ?_⟩
    exact Option.map_eq_some_iff.mpr ⟨v, hv, rfl⟩

theorem names_insertedRow (schema : TableSchema) (now : String) (row : Row) :
    (schema.insertedRow now row).names = namesOf (schema.entries.filter fun (name, c) =>
      row.contains name || (c.kind == .timestamp && c.default.isSome)) :=
  namesOf_insertedEntries now row schema.entries

theorem insertedFrom_insertedRow (schema : TableSchema) (now : String) (row : Row) :
    schema.InsertedFrom now row (schema.insertedRow now row) where
  names := schema.names_insertedRow now row
  filled name c v hc hv hne := by
    rw [get?_insertedRow, hc, hv]
    exact Column.inserted_of_ne_null hne
  stamped name c hc hkind hdefault hunfilled := by
    have hstamp : c.isAutoStamped = true := Column.isAutoStamped_iff.mpr ⟨hkind, hdefault⟩
    rw [get?_insertedRow, hc, Option.bind_some]
    cases hv : row.get? name with
    | none => simp [Column.inserted, hstamp]
    | some v =>
      obtain rfl : v = .null := by
        by_contra hne
        exact hunfilled ⟨v, hv, hne⟩
      simp [Column.inserted, hstamp]
  null name c hc hv hplain := by
    have hstamp : ¬c.isAutoStamped = true := fun h => hplain (Column.isAutoStamped_iff.mp h)
    rw [get?_insertedRow, hc, hv]
    simp [Column.inserted, hstamp]
  unknown name hc := by
    rw [get?_insertedRow, hc]
    rfl

/-- There is only one row that is to be inserted. -/
theorem InsertedFrom.eq_insertedRow (h : schema.InsertedFrom now row prepared) :
    prepared = schema.insertedRow now row := by
  have hrow := schema.insertedFrom_insertedRow now row
  have hnames : prepared.names = (schema.insertedRow now row).names :=
    h.names.trans hrow.names.symm
  refine OrderedMap.eq_of_get? hnames fun name hname => ?_
  rw [h.names] at hname
  obtain ⟨⟨n, c⟩, hmem, rfl⟩ := List.mem_map.mp hname
  obtain ⟨hentry, hkept⟩ := List.mem_filter.mp hmem
  have hc : schema.get? n = some c := OrderedMap.get?_eq_some_iff.mpr hentry
  show prepared.get? n = (schema.insertedRow now row).get? n
  by_cases hfills : row.Fills n
  · obtain ⟨v, hv, hne⟩ := hfills
    rw [h.filled n c v hc hv hne, hrow.filled n c v hc hv hne]
  · by_cases hstamp : c.kind = .timestamp ∧ c.default ≠ none
    · rw [h.stamped n c hc hstamp.1 hstamp.2 hfills, hrow.stamped n c hc hstamp.1 hstamp.2 hfills]
    · -- a column that is not stamped is in the row, so it is there with null
      have hunstamped : c.isAutoStamped = false :=
        Bool.eq_false_iff.mpr fun h => hstamp (Column.isAutoStamped_iff.mp h)
      have hcontains : row.contains n = true := by
        simpa [Column.isAutoStamped] using (Bool.or_eq_true_iff.mp hkept).resolve_right
          (fun h => Bool.false_ne_true (hunstamped.symm.trans h))
      obtain ⟨v, hv⟩ := Option.isSome_iff_exists.mp hcontains
      obtain rfl : v = .null := by
        by_contra hne
        exact hfills ⟨v, hv, hne⟩
      rw [h.null n c hc hv hstamp, hrow.null n c hc hv hstamp]

/-! ## Refused and accepted rows -/

theorem find?_lacks_eq_none_iff : schema.entries.find? (lacks row) = none ↔
    ∀ name c, schema.get? name = some c → ¬Missing row name c := by
  rw [List.find?_eq_none]
  constructor
  · intro h name c hc hmissing
    exact h (name, c) (OrderedMap.get?_eq_some_iff.mp hc) (lacks_iff.mpr hmissing)
  · intro h e he hlacks
    exact h e.1 e.2 (OrderedMap.get?_eq_some_iff.mpr he) (lacks_iff.mp hlacks)

theorem firstMissing_iff : schema.FirstMissing row name ↔
    ∃ c, schema.entries.find? (lacks row) = some (name, c) := by
  simp only [List.find?_eq_some_iff_append, Bool.not_eq_true', ← Bool.not_eq_true, lacks_iff]
  constructor
  · rintro ⟨front, c, back, hentries, hmissing, hfront⟩
    exact ⟨c, hmissing, front, back, hentries, hfront⟩
  · rintro ⟨c, hmissing, front, back, hentries, hfront⟩
    exact ⟨front, c, back, hentries, hmissing, hfront⟩

theorem prepareInsert_eq_ok_iff : schema.prepareInsert now row = .ok prepared ↔
    (∀ name c, schema.get? name = some c → ¬Missing row name c) ∧
      schema.InsertedFrom now row prepared := by
  rw [prepareInsert_eq, ← find?_lacks_eq_none_iff]
  cases schema.entries.find? (lacks row) with
  | some e => simp
  | none =>
    simp only [true_and, Except.ok.injEq]
    constructor
    · rintro rfl
      exact schema.insertedFrom_insertedRow now row
    · intro h
      exact h.eq_insertedRow.symm

theorem prepareInsert_eq_error_iff {e : StoreError} : schema.prepareInsert now row = .error e ↔
    ∃ name, schema.FirstMissing row name ∧ e = .validation (name ++ " is required") := by
  simp only [firstMissing_iff]
  rw [prepareInsert_eq]
  cases schema.entries.find? (lacks row) with
  | none => simp
  | some first =>
    obtain ⟨name, c⟩ := first
    simp [StoreError.columnRequired, eq_comm]

/-- An insert accepts a row exactly if the row fills every column that is required, has no default
and does not count by itself. A row that it refuses is refused for the first such column. Of a row
that it accepts it makes the one row that is to be inserted. -/
theorem prepareInsert_exact (schema : TableSchema) (now : String) (row : Row) :
    ((∃ prepared, schema.prepareInsert now row = .ok prepared) ↔
      ∀ name c, schema.get? name = some c → c.required = true → c.default = none →
        c.autoIncrement = false → row.Fills name) ∧
    (∀ e, schema.prepareInsert now row = .error e ↔
      ∃ name, schema.FirstMissing row name ∧ e = .validation (name ++ " is required")) ∧
    ∀ prepared, schema.prepareInsert now row = .ok prepared ↔
      (∀ name c, schema.get? name = some c → ¬Missing row name c) ∧
        schema.InsertedFrom now row prepared := by
  refine ⟨?_, fun e => prepareInsert_eq_error_iff, fun prepared => prepareInsert_eq_ok_iff⟩
  simp only [prepareInsert_eq_ok_iff]
  constructor
  · rintro ⟨_, hnothing, _⟩ name c hc hrequired hdefault hcounted
    by_contra hunfilled
    exact hnothing name c hc ⟨hrequired, hdefault, hcounted, hunfilled⟩
  · intro hfills
    refine ⟨schema.insertedRow now row, ?_, schema.insertedFrom_insertedRow now row⟩
    intro name c hc h
    exact h.unfilled (hfills name c hc h.required h.noDefault h.notCounted)

/-- Drafts with a number that counts by itself, a title, a date and a note. -/
def drafts : TableSchema :=
  .ofList [("id", { kind := .bigint, required := true, primary := true, autoIncrement := true }),
    ("title", { Column.string 10 with required := true }),
    ("created", { Column.currentTimestamp with required := true }), ("note", .string 10),
    ("tags", .array)]

/-- Nulls and a column that the drafts do not have, and a row without a title. -/
theorem prepareInsert_exact_drafts :
    let row : Row := .ofList [("other", .bool true), ("note", .null), ("created", .null),
      ("title", .str "x")]
    let untitled : Row := .ofList [("id", .null), ("title", .null)]
    (∃ prepared, drafts.prepareInsert "now" row = .ok prepared ∧
      prepared.names = ["title", "created", "note"] ∧
      prepared.get? "created" = some (.str "now") ∧ prepared.get? "note" = some .null) ∧
    drafts.prepareInsert "now" untitled = .error (.validation "title is required") := by
  intro row untitled
  have hunfilled : ∀ {row : Row} {name : String},
      (row.get? name).all Json.isNull = true → ¬row.Fills name := unfilled_iff.mpr
  constructor
  · obtain ⟨-, -, hok⟩ := prepareInsert_exact drafts "now" row
    refine ⟨_, rfl, ?_⟩
    obtain ⟨-, hrow⟩ := (hok _).mp rfl
    refine ⟨hrow.names.trans (by decide), ?_, ?_⟩
    · exact hrow.stamped "created" _ rfl rfl nofun (hunfilled rfl)
    · exact hrow.null "note" _ rfl rfl fun h => nomatch h.1
  · obtain ⟨-, herror, -⟩ := prepareInsert_exact drafts "now" untitled
    refine (herror _).mpr ⟨"title", ?_, by decide⟩
    refine ⟨[_], _, [_, _, _], rfl, ⟨rfl, rfl, rfl, hunfilled rfl⟩, ?_⟩
    exact List.forall_mem_singleton.mpr fun h => nomatch h.notCounted

end TableSchema

end ContentTables
