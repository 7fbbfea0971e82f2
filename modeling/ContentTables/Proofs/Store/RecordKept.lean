import ContentTables.Proofs.Store.RecordText

/-!
# What a record keeps of a schema

Numbers aside, the text of a schema keeps all of it but one thing: a default that is null reads back
as no default.

* `Json.numbers`, `Json.readBack?_eq_self_iff` : a value reads back as itself exactly if its numbers
  do;
* `TableSchema.withoutNullDefaults` : a schema with the null defaults taken out;
* `Records.decode_encode_eq_iff` : that is what the record of a schema holds, so it holds the schema
  itself exactly if no default is null.
-/

namespace ContentTables

namespace Json

/-! ## Values that read back as themselves -/

mutual

/-- The numbers in a value, in the order of its text. -/
def numbers : Json → List Number
  | .num n => [n]
  | .arr items => numbersOfItems items
  | .obj fields => numbersOfFields fields
  | _ => []

def numbersOfItems : List Json → List Number
  | [] => []
  | v :: vs => v.numbers ++ numbersOfItems vs

def numbersOfFields : List (String × Json) → List Number
  | [] => []
  | (_, v) :: fs => v.numbers ++ numbersOfFields fs

end

def KeepsNumbers (ns : List Number) : Prop := ∀ n ∈ ns, n.readBack? = some n

theorem keepsNumbers_nil : KeepsNumbers [] := List.forall_mem_nil _

theorem keepsNumbers_append {ns ms : List Number} :
    KeepsNumbers (ns ++ ms) ↔ KeepsNumbers ns ∧ KeepsNumbers ms := List.forall_mem_append

mutual

theorem readBack?_eq_self_iff : ∀ (v : Json) {k : Nat}, v.Distinct → v.depth ≤ k →
    (v.readBack? k = some v ↔ KeepsNumbers v.numbers)
  | .null, k, _, _ => iff_of_true (readBack?_scalar k).1 keepsNumbers_nil
  | .bool b, k, _, _ => iff_of_true ((readBack?_scalar k).2.1 b) keepsNumbers_nil
  | .str s, k, _, _ => iff_of_true ((readBack?_scalar k).2.2 s) keepsNumbers_nil
  | .num n, k, _, _ => by
    rw [readBack?_number, Option.map_eq_some_iff, numbers, KeepsNumbers, List.forall_mem_singleton]
    constructor
    · rintro ⟨m, hm, hnum⟩
      obtain rfl : m = n := by injection hnum
      exact hm
    · exact fun h => ⟨n, h, rfl⟩
  | .arr vs, k, hv, hdepth => by
    obtain ⟨j, rfl⟩ := Nat.exists_eq_add_one.mpr (Nat.zero_lt_of_lt hdepth)
    rw [readBack?_arr, numbers, ← readsBackItems_self_iff vs hv (Nat.le_of_succ_le_succ hdepth)]
    constructor
    · rintro ⟨ws, hws, heq⟩
      obtain rfl : ws = vs := by injection heq
      exact hws
    · exact fun h => ⟨vs, h, rfl⟩
  | .obj fs, k, hv, hdepth => by
    obtain ⟨j, rfl⟩ := Nat.exists_eq_add_one.mpr (Nat.zero_lt_of_lt hdepth)
    obtain ⟨hnodup, hfs⟩ := hv
    rw [readBack?_obj, numbers, ← readsBackFields_self_iff fs hfs (Nat.le_of_succ_le_succ hdepth)]
    constructor
    · rintro ⟨gs, hgs, heq⟩
      have hkept : ofPairs gs = fs := by injection heq
      rw [ofPairs_of_nodup (hgs.namesOf_eq ▸ hnodup)] at hkept
      exact hkept ▸ hgs
    · exact fun h => ⟨fs, h, congrArg obj (ofPairs_of_nodup hnodup)⟩

theorem readsBackItems_self_iff : ∀ (vs : List Json) {k : Nat}, DistinctItems vs →
    depthItems vs ≤ k → (ReadsBackItems k vs vs ↔ KeepsNumbers (numbersOfItems vs))
  | [], _, _, _ => iff_of_true .nil keepsNumbers_nil
  | v :: vs, k, hvs, hdepth => by
    obtain ⟨hv, hvs⟩ := hvs
    obtain ⟨hdepth, hdepths⟩ := Nat.max_le.mp hdepth
    rw [numbersOfItems, keepsNumbers_append, ← readBack?_eq_self_iff v hv hdepth,
      ← readsBackItems_self_iff vs hvs hdepths]
    exact List.forall₂_cons

theorem readsBackFields_self_iff : ∀ (fs : List (String × Json)) {k : Nat}, DistinctFields fs →
    depthFields fs ≤ k → (ReadsBackFields k fs fs ↔ KeepsNumbers (numbersOfFields fs))
  | [], _, _, _ => iff_of_true .nil keepsNumbers_nil
  | (name, v) :: fs, k, hfs, hdepth => by
    obtain ⟨hv, hfs⟩ := hfs
    obtain ⟨hdepth, hdepths⟩ := Nat.max_le.mp hdepth
    rw [numbersOfFields, keepsNumbers_append, ← readBack?_eq_self_iff v hv hdepth,
      ← readsBackFields_self_iff fs hfs hdepths]
    exact List.forall₂_cons.trans (and_congr_left' (and_iff_right rfl))

end

end Json

/-! ## Null defaults -/

namespace Column

def KeepsNumbers (c : Column) : Prop := ∀ v ∈ c.default, Json.KeepsNumbers v.numbers

def withoutNullDefault (c : Column) : Column :=
  { c with default := c.default.filter fun v => !v.isNull }

theorem withoutNullDefault_eq_self_iff {c : Column} :
    c.withoutNullDefault = c ↔ c.default ≠ some .null := by
  obtain ⟨kind, length, required, unique, primary, autoIncrement, default, index, values⟩ := c
  cases default with
  | none => exact ⟨fun _ => nofun, fun _ => rfl⟩
  | some v =>
    cases v with
    | null => exact ⟨nofun, fun h => absurd rfl h⟩
    | _ => exact ⟨fun _ => nofun, fun _ => rfl⟩

theorem readBack?_of_keepsNumbers {c : Column} (h : c.Recordable) (hnumbers : c.KeepsNumbers) :
    c.readBack? = some c.withoutNullDefault := by
  have hdefault : readDefault? c.default = some (c.default.filter fun v => !v.isNull) := by
    cases hc : c.default with
    | none => rfl
    | some v =>
      obtain ⟨hdistinct, hdepth⟩ := h v hc
      have hread : v.readBack? 125 = some v :=
        (Json.readBack?_eq_self_iff v hdistinct hdepth).mpr (hnumbers v hc)
      unfold readDefault?
      rw [Option.filter_some]
      cases hnull : v.isNull <;> simp [hnull, hread]
  rw [readBack?_eq, hdefault, Option.map_some]
  rfl

end Column

namespace TableSchema

open OrderedMap

/-- The numbers in the defaults read back exactly. -/
def KeepsNumbers (s : TableSchema) : Prop := ∀ name c, s.get? name = some c → c.KeepsNumbers

def HasNullDefault (s : TableSchema) : Prop :=
  ∃ name c, s.get? name = some c ∧ c.default = some .null

def withoutNullDefaults (s : TableSchema) : TableSchema :=
  s.mapValues fun _ c => c.withoutNullDefault

theorem withoutNullDefaults_eq_self_iff {s : TableSchema} :
    s.withoutNullDefaults = s ↔ ¬s.HasNullDefault := by
  have heach : s.withoutNullDefaults = s ↔
      ∀ e ∈ s.entries, (e.1, e.2.withoutNullDefault) = id e := by
    have hid : s.entries.map id = s.entries := List.map_id _
    rw [← List.map_inj_left (f := fun e : String × Column => (e.1, e.2.withoutNullDefault)), hid]
    exact ⟨congrArg entries, fun h => OrderedMap.ext (m := s.withoutNullDefaults) h⟩
  rw [heach]
  constructor
  · rintro h ⟨name, c, hget, hnull⟩
    have hkept := h (name, c) (get?_eq_some_iff.mp hget)
    exact Column.withoutNullDefault_eq_self_iff.mp (Prod.mk.inj hkept).2 hnull
  · intro h e he
    have hkept : e.2.withoutNullDefault = e.2 := Column.withoutNullDefault_eq_self_iff.mpr
      fun hnull => h ⟨e.1, e.2, get?_eq_some_iff.mpr he, hnull⟩
    exact Prod.ext rfl hkept

/-- A null default is a difference of content. -/
theorem sameContent_withoutNullDefaults_iff {s : TableSchema} (h : s.Distinct) :
    s.withoutNullDefaults.sameContent s = true ↔ ¬s.HasNullDefault := by
  constructor
  · rintro hsame ⟨name, c, hget, hnull⟩
    have hwithout : s.withoutNullDefaults.get? name = some c.withoutNullDefault :=
      get?_eq_some_iff.mpr (List.mem_map_of_mem (get?_eq_some_iff.mp hget))
    have hname := sameContent_iff.mp hsame name
    rw [hwithout, hget] at hname
    cases hname with
    | some hdefinition =>
      simp [Column.sameDefinition, Column.withoutNullDefault, hnull, Column.sameDefault,
        Json.isNull] at hdefinition
  · intro hnone
    rw [withoutNullDefaults_eq_self_iff.mpr hnone]
    exact sameContent_refl h

theorem parse?_text_of_keepsNumbers {s : TableSchema} (h : s.Recordable)
    (hnumbers : s.KeepsNumbers) : parse? s.text = some s.withoutNullDefaults := by
  refine parse?_text_eq_some_iff.mpr (List.forall₂_map_right_iff.mpr (List.forall₂_same.mpr ?_))
  intro e he
  have hget : s.get? e.1 = some e.2 := get?_eq_some_iff.mpr he
  exact ⟨rfl, Column.readBack?_of_keepsNumbers (h e.1 e.2 hget) (hnumbers e.1 e.2 hget)⟩

end TableSchema

namespace Records

/-- Recorded and read again, a schema has the columns that it had, in their order, and of these only
the null defaults are gone. -/
theorem decode_encode_eq_iff {schema : TableSchema} (h : schema.Recordable)
    (hnumbers : schema.KeepsNumbers) :
    decode (encode schema) = .ok schema.withoutNullDefaults ∧
      (decode (encode schema) = .ok schema ↔ ¬schema.HasNullDefault) ∧
      (schema.withoutNullDefaults.sameContent schema = true ↔ ¬schema.HasNullDefault) := by
  have hread : decode (encode schema) = .ok schema.withoutNullDefaults :=
    decode_encode_of_parse? (TableSchema.parse?_text_of_keepsNumbers h hnumbers)
  refine ⟨hread, ?_, TableSchema.sameContent_withoutNullDefaults_iff h.distinct⟩
  rw [hread, Except.ok.injEq]
  exact TableSchema.withoutNullDefaults_eq_self_iff

/-- A column of each sort of default: none, null, a number, and an object. -/
theorem decode_encode_eq_iff_mixed :
    let schema : TableSchema := .ofList [("a", { kind := .int }),
      ("b", { kind := .string, required := true, default := some .null }),
      ("c", { kind := .bigint, default := some (.ofUInt64 7) }),
      ("d", { kind := .object, default := some (.obj [("x", .arr [.null]), ("y", .str "z")]) })]
    schema.Recordable ∧ schema.KeepsNumbers ∧ schema.HasNullDefault ∧
      decode (encode schema) = .ok schema.withoutNullDefaults ∧
      decode (encode schema) ≠ .ok schema := by
  intro schema
  have hcolumns : ∀ name c, schema.get? name = some c → c.Recordable ∧ c.KeepsNumbers := by
    intro name c hget
    have hmem := mem_of_mem_ofPairs (OrderedMap.get?_eq_some_iff.mp hget)
    simp only [List.mem_cons, List.not_mem_nil, or_false, Prod.mk.injEq] at hmem
    obtain ⟨-, rfl⟩ | ⟨-, rfl⟩ | ⟨-, rfl⟩ | ⟨-, rfl⟩ := hmem
    · exact ⟨nofun, nofun⟩
    · exact ⟨Column.recordable_of_isScalar rfl, by rintro _ ⟨⟩; exact Json.keepsNumbers_nil⟩
    · refine ⟨Column.recordable_of_isScalar rfl, ?_⟩
      rintro _ ⟨⟩
      exact List.forall_mem_singleton.mpr (Number.readBack?_int _)
    · constructor
      · rintro _ ⟨⟩
        exact ⟨⟨by decide, ⟨trivial, trivial⟩, trivial, trivial⟩, by decide⟩
      · rintro _ ⟨⟩
        exact Json.keepsNumbers_nil
  have h : schema.Recordable := fun name c hget => (hcolumns name c hget).1
  have hnumbers : schema.KeepsNumbers := fun name c hget => (hcolumns name c hget).2
  have hnull : schema.HasNullDefault := ⟨"b", _, rfl, rfl⟩
  obtain ⟨hread, hself, _⟩ := decode_encode_eq_iff h hnumbers
  exact ⟨h, hnumbers, hnull, hread, fun heq => hself.mp heq hnull⟩

/-- One column with a null default reads back as one without a default. -/
theorem decode_encode_nullDefault :
    let schema : TableSchema := .ofList [("a", { kind := .string, default := some .null })]
    let kept : TableSchema := .ofList [("a", { kind := .string })]
    decode (encode schema) = .ok kept ∧ decode (encode schema) ≠ .ok schema ∧
      kept.sameContent schema = false := by
  intro schema kept
  have hread : TableSchema.parse? schema.text = some kept := by
    refine TableSchema.parse?_text_eq_some_iff.mpr (.cons ⟨rfl, ?_⟩ .nil)
    exact Column.readBack?_eq _
  refine ⟨decode_encode_of_parse? hread, fun hself => ?_, by decide⟩
  have hsame : some kept = some schema :=
    hread.symm.trans (parse?_of_decode_encode hself)
  injection hsame with hsame
  have hdefault : (kept.get? "a").bind Column.default = (schema.get? "a").bind Column.default :=
    by rw [hsame]
  exact nomatch hdefault

end Records

end ContentTables
