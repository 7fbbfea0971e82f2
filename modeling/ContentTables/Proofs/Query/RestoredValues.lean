import ContentTables.Proofs.Query.WrittenValues
import ContentTables.Proofs.Store.RecordKept

/-!
# Values that were written and read again

* `Json.parse?_text` : the text of a value is read as the value, as far as the reader goes;
* `Column.restored` : what each kind of column gives back of a value;
* `Column.decode_encode_eq_restored_iff` : it does so unless the reader takes a number in a text for
  another;
* `TableSchema.entries_decodeRow_prepareUpdate` : the row that an update writes is read as its known
  columns, each as the column restores it;
* `restored_columns` : the same for all columns of a schema, and rows are read column by column.
-/

namespace ContentTables

open Document (depthLimit)

theorem Json.parse?_text (v : Json) : Json.parse? v.text = v.readBack? depthLimit := by
  unfold Json.parse?
  rw [Document.parse?_text]
  rfl

namespace Column

/-- A column of objects or arrays gives back what a string says, if it is a text at all, and any
other value as it is, unless that nests too deep to be read. A flag is what the value means. -/
def restored (c : Column) (v : Json) : Json :=
  match c.kind with
  | .object | .array =>
    match v with
    | .str s => (Json.parse? s).getD (.str s)
    | v => if v.depth ≤ depthLimit then v else .str v.text
  | .bool => .bool v.isTruthy
  | _ => v

theorem decode_encode_of_bool {c : Column} (h : c.kind = .bool) (v : Json) :
    c.decode (c.encode v) = c.restored v := by
  have hflag : ∀ b : Bool, (Json.ofUInt64 (if b then 1 else 0)).isTruthy = b := by decide
  unfold decode encode restored
  rw [h]
  cases v with
  | null => rfl
  | _ => exact congrArg Json.bool (hflag _)

/-- Neither flags nor texts of values. -/
theorem decode_encode_of_plain {c : Column} (hjson : c.kind.isJson = false)
    (hbool : c.kind ≠ .bool) (v : Json) :
    c.decode (c.encode v) = c.restored v := by
  unfold decode encode restored
  revert hjson hbool
  cases c.kind <;> simp [ColumnKind.isJson]

section IsJson
variable {c : Column} (h : c.kind.isJson = true)
include h

theorem encode_of_isJson {v : Json} (hv : v.isNull = false) : c.encode v = encodeJson v := by
  unfold encode
  revert h
  rw [hv]
  cases c.kind <;> simp [ColumnKind.isJson]

theorem decode_of_isJson (v : Json) : c.decode v = decodeJson v := by
  unfold decode
  revert h
  cases c.kind <;> simp [ColumnKind.isJson]

theorem decode_encode_str (s : String) : c.decode (c.encode (.str s)) = c.restored (.str s) := by
  rw [encode_of_isJson h rfl, decode_of_isJson h]
  unfold restored
  revert h
  cases c.kind <;> simp [ColumnKind.isJson, encodeJson, decodeJson]

theorem restored_of_not_str {v : Json} (hv : v.str? = none) :
    c.restored v = if v.depth ≤ depthLimit then v else .str v.text := by
  unfold restored
  revert h
  cases v with
  | str s => exact nomatch hv
  | _ => cases c.kind <;> simp [ColumnKind.isJson]

/-- The text that is written is read again, and stays what it is if the reader refuses it. -/
theorem decode_encode_of_not_str {v : Json} (hv : v.str? = none) :
    c.decode (c.encode v) = (v.readBack? depthLimit).getD (.str v.text) := by
  cases v with
  | str s => exact nomatch hv
  | null =>
    rw [(Json.readBack?_scalar depthLimit).1]
    exact decode_of_isJson h .null
  | _ =>
    rw [encode_of_isJson h rfl, decode_of_isJson h, ← Json.parse?_text]
    rfl

theorem decode_encode_eq_self_iff {v : Json} (hv : v.Distinct) (hstr : v.str? = none)
    (hdepth : v.depth ≤ depthLimit) :
    c.decode (c.encode v) = v ↔ Json.KeepsNumbers v.numbers := by
  obtain ⟨w, hw⟩ := Json.exists_readBack_iff.mpr hdepth
  rw [decode_encode_of_not_str h hstr, ← Json.readBack?_eq_self_iff v hv hdepth, hw,
    Option.getD_some, Option.some.injEq]

theorem decode_encode_of_deep {v : Json} (hstr : v.str? = none) (hdepth : depthLimit < v.depth) :
    c.decode (c.encode v) = .str v.text := by
  have hnone : v.readBack? depthLimit = none := by
    rw [Option.eq_none_iff_forall_ne_some]
    exact fun w hw => Nat.not_le_of_lt hdepth (Json.exists_readBack_iff.mp ⟨w, hw⟩)
  rw [decode_encode_of_not_str h hstr, hnone, Option.getD_none]

end IsJson

/-- Only numbers may come back as others, and only in the texts of values. -/
theorem decode_encode_eq_restored_iff (c : Column) {v : Json} (hv : v.Distinct) :
    c.decode (c.encode v) = c.restored v ↔ (c.kind.isJson = true → v.str? = none →
      v.depth ≤ depthLimit → Json.KeepsNumbers v.numbers) := by
  cases hjson : c.kind.isJson with
  | true =>
    cases hstr : v.str? with
    | some s =>
      obtain rfl : v = .str s := by cases v <;> simp_all [Json.str?]
      exact iff_of_true (decode_encode_str hjson s) nofun
    | none =>
      rw [restored_of_not_str hjson hstr]
      split
      · rename_i hdepth
        rw [decode_encode_eq_self_iff hjson hv hstr hdepth]
        exact ⟨fun h _ _ _ => h, fun h => h rfl rfl hdepth⟩
      · rename_i hdepth
        exact iff_of_true (decode_encode_of_deep hjson hstr (Nat.lt_of_not_le hdepth))
          fun _ _ hle => absurd hle hdepth
  | false =>
    refine iff_of_true ?_ nofun
    by_cases hbool : c.kind = .bool
    · exact decode_encode_of_bool hbool v
    · exact decode_encode_of_plain hjson hbool v

end Column

/-! ## Rows -/

theorem OrderedMap.get?_mapValues {α β : Type} (f : String → α → β) (m : OrderedMap α)
    (name : String) : (m.mapValues f).get? name = (m.get? name).map (f name) := by
  simp only [get?, mapValues]
  induction m.entries with
  | nil => rfl
  | cons e es ih =>
    obtain ⟨n, v⟩ := e
    rw [List.map_cons, lookup_cons_eq, lookup_cons_eq, ih]
    split
    · rename_i hname
      rw [hname, Option.map_some]
    · rfl

namespace TableSchema

theorem names_decodeRow (schema : TableSchema) (row : Row) :
    (schema.decodeRow row).names = row.names := by
  unfold decodeRow OrderedMap.mapValues OrderedMap.names namesOf
  rw [List.map_map]
  rfl

/-- What an update writes of a row is read as the known columns of that row, each restored. -/
theorem entries_decodeRow_prepareUpdate {schema : TableSchema} {row prepared : Row}
    (h : schema.prepareUpdate row = .ok prepared)
    (hrow : ∀ e ∈ row.entries, e.2.Distinct ∧ Json.KeepsNumbers e.2.numbers) :
    (schema.decodeRow prepared).entries = row.entries.filterMap fun (name, v) =>
      (schema.get? name).map fun c => (name, c.restored v) := by
  unfold decodeRow OrderedMap.mapValues
  simp only
  rw [entries_prepareUpdate h, updateEntries, List.map_filterMap]
  refine List.filterMap_congr fun e he => ?_
  obtain ⟨hdistinct, hnumbers⟩ := hrow e he
  cases hc : schema.get? e.1 with
  | none => simp only [hc, Option.map_none]
  | some c =>
    have hrestored := (c.decode_encode_eq_restored_iff hdistinct).mpr fun _ _ _ => hnumbers
    simp only [hc, Option.map_some, Option.getD_some, hrestored]

end TableSchema

/-- A column gives back what it restores, whatever was written to it, unless a number in the text of
an object or array is read as another. Rows keep their order and their columns theirs; every known
column is read on its own, and the others pass through. So the row that an update writes is read as
its known columns, each restored. -/
theorem restored_columns (schema : TableSchema) :
    (∀ (c : Column) (v : Json), v.Distinct →
      (c.decode (c.encode v) = c.restored v ↔
        (c.kind.isJson = true → v.str? = none → v.depth ≤ 127 → Json.KeepsNumbers v.numbers))) ∧
    (∀ rows : List Row, List.Forall₂ (fun row decoded : Row => decoded.names = row.names ∧
      ∀ name, decoded.get? name = (row.get? name).map fun v =>
        match schema.get? name with
        | some c => c.decode v
        | none => v) rows (schema.decodeRows rows)) ∧
    ∀ row prepared : Row, schema.prepareUpdate row = .ok prepared →
      (∀ e ∈ row.entries, e.2.Distinct ∧ Json.KeepsNumbers e.2.numbers) →
        (schema.decodeRow prepared).entries = row.entries.filterMap fun (name, v) =>
          (schema.get? name).map fun c => (name, c.restored v) := by
  refine ⟨fun c v => c.decode_encode_eq_restored_iff, fun rows => ?_, fun row prepared => ?_⟩
  · rw [TableSchema.decodeRows, List.forall₂_map_right_iff, List.forall₂_same]
    refine fun row _ => ⟨schema.names_decodeRow row, fun name => ?_⟩
    rw [TableSchema.decodeRow, OrderedMap.get?_mapValues]
    cases schema.get? name <;> rfl
  · exact TableSchema.entries_decodeRow_prepareUpdate

/-- One column of each sort. -/
def sortsTable : TableSchema :=
  .ofList [("data", .object), ("tags", .array), ("done", .bool), ("name", .string 10)]

def sevens : Json := .obj [("k", .arr [.ofUInt64 7, .null])]

def sortsRow : Row := .ofList [("done", .str "False"), ("tags", .str " [null, true]"),
  ("other", .null), ("name", .str "null"), ("data", sevens)]

/-- A flag given as a word, a list given as its text, and a name that looks like a value. -/
theorem restored_columns_sorts :
    sevens.Distinct ∧ Json.KeepsNumbers sevens.numbers ∧
      Column.object.decode (Column.object.encode sevens) = sevens ∧
      ∃ prepared, sortsTable.prepareUpdate sortsRow = .ok prepared ∧
        (sortsTable.decodeRow prepared).entries = [("done", .bool false),
          ("tags", .arr [.null, .bool true]), ("name", .str "null"), ("data", sevens)] := by
  have hdistinct : sevens.Distinct := ⟨by decide, ⟨trivial, trivial, trivial⟩, trivial⟩
  have hnumbers : Json.KeepsNumbers sevens.numbers :=
    List.forall_mem_singleton.mpr (Number.readBack?_int _)
  obtain ⟨hcolumn, -, hrow⟩ := restored_columns sortsTable
  refine ⟨hdistinct, hnumbers, (hcolumn .object sevens hdistinct).mpr fun _ _ _ => hnumbers, ?_⟩
  refine ⟨_, rfl, (hrow sortsRow _ rfl fun e he => ?_).trans rfl⟩
  have hmem := mem_of_mem_ofPairs he
  simp only [List.mem_cons, List.not_mem_nil, or_false] at hmem
  obtain rfl | rfl | rfl | rfl | rfl := hmem
  case inr.inr.inr.inr => exact ⟨hdistinct, hnumbers⟩
  all_goals exact ⟨trivial, Json.keepsNumbers_nil⟩

end ContentTables
