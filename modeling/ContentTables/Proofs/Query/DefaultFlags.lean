import ContentTables.Proofs.Number.PrintedZero
import ContentTables.Proofs.Query.InsertedRows
import ContentTables.Proofs.Query.RestoredValues
import ContentTables.Proofs.Sql.ColumnText

/-!
# Flags that are left to their default

A bool column has its default twice: as a number in its clause, for rows that leave the column out,
and as a value, which a row may give itself. Each is read as a flag in its own way, and for most
words, arrays and objects not in the same way.

* `Column.declaredNumber?` : the number behind `DEFAULT` in the clause of a column;
* `Json.declaredFlag` : the one that a default of a bool column is declared as;
* `Json.IsPlainFlag` : defaults for which both readings agree (`declaredFlag_iff_isTruthy`);
* `TableSchema.prepareInsert_insert` : a row that gives the default itself is inserted with it, and
  one that leaves it out is inserted without;
* `default_flags_agree_iff` : both rows are read alike exactly for those defaults.
-/

namespace ContentTables

open Definition

/-! ## Two readings of a default -/

namespace Json

/-- The number that a bool column starts with. -/
def declaredFlag : Json → Number
  | .bool b => .ofUInt64 (if b then 1 else 0)
  | .num n => n
  | .str s => .ofUInt64 (if s = "1" ∨ sameIgnoringCase s "true" then 1 else 0)
  | _ => .ofUInt64 0

/-- Flags, numbers and null, the words for the two flags, and what has nothing in it. -/
def IsPlainFlag : Json → Prop
  | .str s => s ∈ ["", "0", "1"] ∨ sameIgnoringCase s "true" = true ∨
      sameIgnoringCase s "false" = true
  | .arr items => items = []
  | .obj fields => fields = []
  | _ => True

theorem boolDefault_eq (d : Json) : boolDefault (some d) = d.declaredFlag.text := by
  have hone : (Number.ofUInt64 1).text = "1" := by decide
  have hzero : (Number.ofUInt64 0).text = "0" := by decide
  cases d with
  | bool b => cases b <;> simp [boolDefault, declaredFlag, hone, hzero]
  | num n => rfl
  | str s =>
    unfold boolDefault declaredFlag
    simp only
    split
    · exact hone.symm
    · exact hzero.symm
  | null | arr | obj => exact hzero.symm

theorem isZero_ofFlag (p : Prop) [Decidable p] :
    (Number.ofUInt64 (if p then 1 else 0)).isZero = true ↔ ¬p := by
  by_cases hp : p <;> simp [hp] <;> decide

/-- A word is not taken for a flag by one reading and for the other flag by the other. -/
theorem not_true_and_false (s : String) :
    ¬((s = "1" ∨ sameIgnoringCase s "true" = true) ∧
      (s = "" ∨ s = "0" ∨ sameIgnoringCase s "false" = true)) := by
  rintro ⟨rfl | htrue, hfalse⟩
  · exact absurd hfalse (by decide)
  · rcases hfalse with rfl | rfl | hfalse
    · exact absurd htrue (by decide)
    · exact absurd htrue (by decide)
    · have hsame : lowered "true" = lowered "false" :=
        (beq_iff_eq.mp htrue).symm.trans (beq_iff_eq.mp hfalse)
      exact absurd hsame (by decide)

theorem declaredFlag_iff_isTruthy (d : Json) :
    (¬d.declaredFlag.isZero = true ↔ d.isTruthy = true) ↔ d.IsPlainFlag := by
  cases d with
  | null => exact iff_of_true (by decide) trivial
  | bool b => exact iff_of_true (by cases b <;> decide) trivial
  | num n => exact iff_of_true (by simp [declaredFlag, isTruthy]) trivial
  | str s =>
    have hnot := not_true_and_false s
    have htruthy : isTruthy (.str s) = true ↔
        ¬(s = "" ∨ s = "0" ∨ sameIgnoringCase s "false" = true) := by
      simp [isTruthy, not_or, and_assoc]
    rw [htruthy, declaredFlag, isZero_ofFlag, not_not, IsPlainFlag]
    simp only [List.mem_cons, List.not_mem_nil, or_false]
    grind
  | arr items =>
    have hzero : (arr items).declaredFlag.isZero = true := rfl
    simp [hzero, isTruthy, IsPlainFlag]
  | obj fields =>
    have hzero : (obj fields).declaredFlag.isZero = true := rfl
    simp [hzero, isTruthy, IsPlainFlag]

end Json

/-! ## The clause and the stored value -/

namespace Column

variable {c : Column}

/-- The number behind `DEFAULT` in the clause of a column. -/
def declaredNumber? (name : String) (c : Column) : Option ℚ := do
  let said ← readColumn? (columnClause name c)
  match said.default with
  | some (.bare word) => numeral? word
  | _ => none

theorem declaredNumber?_of_bool (name : String) (hkind : c.kind = .bool) {d : Json}
    (hdefault : c.default = some d) :
    c.declaredNumber? name = numeral? d.declaredFlag.text := by
  have hsaid : (c.said name).default = some (.bare d.declaredFlag.text) := by
    show c.saidDefault = _
    rw [saidDefault, if_pos hkind, hdefault, Json.boolDefault_eq]
  simp only [declaredNumber?, readColumn?_columnClause, Option.bind_eq_bind, Option.bind_some,
    hsaid]

theorem encode_eq_one_iff (hkind : c.kind = .bool) (d : Json) :
    c.encode d = .ofUInt64 1 ↔ d.isTruthy = true := by
  have hflag : ∀ b : Bool, Json.ofUInt64 (if b then 1 else 0) = .ofUInt64 1 ↔ b = true := by
    intro b
    cases b with
    | false =>
      refine iff_of_false (fun h => ?_) Bool.false_ne_true
      exact absurd (Json.num.inj h) (by decide)
    | true => exact iff_of_true rfl rfl
  unfold encode
  rw [hkind]
  cases d with
  | null => exact iff_of_false nofun Bool.false_ne_true
  | _ => exact hflag _

theorem decode_eq_decode_encode_iff (hkind : c.kind = .bool) (n : Number) (d : Json) :
    c.decode (.num n) = c.decode (c.encode d) ↔ (¬n.isZero = true ↔ d.isTruthy = true) := by
  rw [decode_encode_of_bool hkind]
  unfold decode restored
  rw [hkind]
  show Json.bool (!n.isZero) = Json.bool d.isTruthy ↔ _
  rw [Json.bool.injEq]
  cases n.isZero <;> cases d.isTruthy <;> decide

end Column

/-! ## Rows with and without the column -/

namespace TableSchema

variable {schema : TableSchema} {now : String} {row prepared : Row} {name : String} {c : Column}

theorem fills_insert {v : Json} {other : String} (h : row.Fills other) (hne : other ≠ name) :
    Row.Fills (row.insert name v) other := by
  obtain ⟨w, hw, hnull⟩ := h
  exact ⟨w, by rw [OrderedMap.get?_insert, if_neg hne, hw], hnull⟩

theorem not_missing_insert (hc : schema.get? name = some c) (hdefault : c.default ≠ none)
    {other : String} {c' : Column} (hc' : schema.get? other = some c')
    (h : ¬Missing row other c') (v : Json) : ¬Missing (row.insert name v) other c' := by
  intro hmissing
  by_cases hsame : other = name
  · subst hsame
    obtain rfl := Option.some.inj (hc.symm.trans hc')
    exact hdefault hmissing.noDefault
  · refine h { hmissing with unfilled := fun hfills => ?_ }
    exact hmissing.unfilled (fills_insert hfills hsame)

/-- A flag that has a default may be left out of a row, and may be given with any value. -/
theorem prepareInsert_insert (hc : schema.get? name = some c) (hkind : c.kind = .bool)
    (hdefault : c.default ≠ none) (hrow : row.get? name = none)
    (h : schema.prepareInsert now row = .ok prepared) (d : Json) :
    prepared.get? name = none ∧ ∃ given,
      schema.prepareInsert now (row.insert name d) = .ok given ∧
        given.get? name = some (c.encode d) := by
  obtain ⟨hnothing, hinserted⟩ := prepareInsert_eq_ok_iff.mp h
  have hunstamped : ¬(c.kind = .timestamp ∧ c.default ≠ none) := fun hstamp =>
    nomatch hkind.symm.trans hstamp.1
  have hgiven : (row.insert name d).get? name = some d := by
    rw [OrderedMap.get?_insert, if_pos rfl]
  have haccepted : ∀ other c', schema.get? other = some c' →
      ¬Missing (row.insert name d) other c' := fun other c' hc' =>
    not_missing_insert hc hdefault hc' (hnothing other c' hc') d
  have hrest := schema.insertedFrom_insertedRow now (row.insert name d)
  refine ⟨?_, _, prepareInsert_eq_ok_iff.mpr ⟨haccepted, hrest⟩, ?_⟩
  · have hnotStamped : c.isAutoStamped = false :=
      Bool.eq_false_iff.mpr fun hstamp => hunstamped (Column.isAutoStamped_iff.mp hstamp)
    rw [hinserted.eq_insertedRow, get?_insertedRow, hc, Option.bind_some, hrow, Column.inserted,
      hnotStamped]
    rfl
  · by_cases hnull : d = .null
    · subst hnull
      exact hrest.null name c hc hgiven hunstamped
    · exact hrest.filled name c d hc hgiven hnull

theorem get?_decodeRow (hc : schema.get? name = some c) (row : Row) :
    (schema.decodeRow row).get? name = (row.get? name).map c.decode := by
  rw [decodeRow, OrderedMap.get?_mapValues, hc]
  rfl

/-- The number behind `DEFAULT` says the same flag as the value of the default exactly if that is
plain. Then, and only then, a row that leaves the column out, with that number or any number that is
zero where it is, is read as the row that gives the default itself. -/
theorem default_flags_agree_iff (hc : schema.get? name = some c) (hkind : c.kind = .bool) {d : Json}
    (hdefault : c.default = some d) : ∃ q, c.declaredNumber? name = some q ∧
      ((q ≠ 0 ↔ c.encode d = .ofUInt64 1) ↔ d.IsPlainFlag) ∧
      ∀ now row prepared, row.get? name = none → schema.prepareInsert now row = .ok prepared →
        prepared.get? name = none ∧ ∃ given,
          schema.prepareInsert now (row.insert name d) = .ok given ∧
          ∀ n : Number, (n.isZero = true ↔ q = 0) →
            ((schema.decodeRow (prepared.insert name (.num n))).get? name =
              (schema.decodeRow given).get? name ↔ d.IsPlainFlag) := by
  obtain ⟨q, hq, hzero⟩ := Number.numeral?_text d.declaredFlag
  refine ⟨q, (Column.declaredNumber?_of_bool name hkind hdefault).trans hq, ?_, ?_⟩
  · rw [Column.encode_eq_one_iff hkind, ← Json.declaredFlag_iff_isTruthy, ne_eq, hzero]
  · intro now row prepared hrow hprepared
    have hpresent : c.default ≠ none := hdefault ▸ Option.some_ne_none d
    obtain ⟨habsent, given, hgiven, hvalue⟩ :=
      prepareInsert_insert hc hkind hpresent hrow hprepared d
    refine ⟨habsent, given, hgiven, fun n hn => ?_⟩
    rw [get?_decodeRow hc, get?_decodeRow hc, OrderedMap.get?_insert, if_pos rfl, hvalue,
      Option.map_some, Option.map_some, Option.some.injEq,
      Column.decode_eq_decode_encode_iff hkind, hn, hzero, Json.declaredFlag_iff_isTruthy]

/-- A switch that starts as the default says. -/
def switches (d : Json) : TableSchema := .ofList [("on", { Column.bool with default := some d })]

/-- The smallest double is written as a number that is not zero, and it is meant so. -/
theorem default_flags_agree_smallest :
    let d : Json := .num (.float ⟨false, 1, by decide⟩)
    let c : Column := { Column.bool with default := some d }
    (switches d).get? "on" = some c ∧ c.kind = .bool ∧ c.default = some d ∧
      (∃ q, c.declaredNumber? "on" = some q ∧ q ≠ 0) ∧
      ∃ prepared given, (switches d).prepareInsert "" ∅ = .ok prepared ∧
        prepared.get? "on" = none ∧
        (switches d).prepareInsert "" (OrderedMap.insert ∅ "on" d) = .ok given ∧
        ((switches d).decodeRow (prepared.insert "on" (.ofUInt64 1))).get? "on" =
          ((switches d).decodeRow given).get? "on" := by
  intro d c
  have hc : (switches d).get? "on" = some c := rfl
  obtain ⟨q, hq, hagree, hrows⟩ := default_flags_agree_iff hc rfl rfl
  have hnonzero : q ≠ 0 := (hagree.mpr trivial).mpr rfl
  obtain ⟨habsent, given, hgiven, hread⟩ := hrows "" ∅ _ rfl rfl
  refine ⟨hc, rfl, rfl, ⟨q, hq, hnonzero⟩, _, given, rfl, habsent, hgiven, ?_⟩
  exact (hread (.ofUInt64 1) (iff_of_false (by decide) hnonzero)).mpr trivial

/-- A switch with the default `yes` is off in a row that leaves it out, and on in one that says
`yes`. -/
theorem default_flags_differ_yes :
    let d : Json := .str "yes"
    let c : Column := { Column.bool with default := some d }
    columnClause "on" c = "\x60on\x60 SMALLINT(1) DEFAULT 0" ∧
      c.declaredNumber? "on" = some 0 ∧ c.encode d = .ofUInt64 1 ∧
      ∃ prepared given, (switches d).prepareInsert "" ∅ = .ok prepared ∧
        (switches d).prepareInsert "" (OrderedMap.insert ∅ "on" d) = .ok given ∧
        ((switches d).decodeRow (prepared.insert "on" (.ofUInt64 0))).get? "on" =
          some (.bool false) ∧
        ((switches d).decodeRow given).get? "on" = some (.bool true) := by
  intro d c
  refine ⟨by decide, ?_, rfl, _, _, rfl, rfl, rfl, rfl⟩
  obtain ⟨q, hq, hzero⟩ := Number.numeral?_text d.declaredFlag
  rw [Column.declaredNumber?_of_bool (c := c) "on" rfl rfl, hq, hzero.mpr rfl]

end TableSchema

end ContentTables
