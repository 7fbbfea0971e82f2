import ContentTables.Proofs.Json.ReadBack
import ContentTables.Proofs.Schema.Merging

/-!
# Schemas read back

A schema is recorded as text. Everything in a column but its default reads back as it was, and the
default reads back as its text has it.

* `Column.readBack?`, `Column.readBack?_eq` : a column read back;
* `TableSchema.parse?_text_eq_some_iff` : a schema is read back column by column;
* `TableSchema.Stable` : a schema that reads back as itself, as `Stable.merge` has it of a merged
  schema whose parts do;
* `TableSchema.parse?_of_sameContent` : schemas of one content still are so once they are read back.
-/

namespace ContentTables

/-! ## Records whose absent fields are left out -/

namespace Document

theorem mapM_eq_some_map {α β : Type} {f : α → Option β} {g : α → β} {l : List α}
    (h : ∀ a ∈ l, f a = some (g a)) : l.mapM f = some (l.map g) := by
  induction l with
  | nil => rfl
  | cons a l ih =>
    obtain ⟨ha, hl⟩ := List.forall_mem_cons.mp h
    rw [List.mapM_cons, ha, ih hl]
    rfl

/-- The fields that are there. -/
def present (fields : List (String × Option Json)) : List (String × Json) :=
  fields.filterMap fun (name, v) => v.map (name, ·)

theorem present_cons (name : String) (v : Option Json) (fields : List (String × Option Json)) :
    present ((name, v) :: fields) = (v.map (name, ·)).toList ++ present fields := by
  cases v <;> rfl

/-- What a document of fields says of each of them. -/
def saying (k : Nat) (fs : List (String × Json)) : List (Option String × Document) :=
  fs.map fun f => (some f.1, f.2.asRead.limitDepth k)

theorem limitDepth_obj (k : Nat) (fs : List (String × Json)) :
    (Json.obj fs).asRead.limitDepth (k + 1) = .obj (saying k fs) := by
  have hfields : limitDepthFields k (Json.fieldsAsRead fs) = saying k fs := by
    induction fs with
    | nil => rfl
    | cons f fs ih => rw [Json.fieldsAsRead, limitDepthFields, ih, saying, saying, List.map_cons]
  rw [Json.asRead, limitDepth, hfields]

theorem filter_saying_eq_nil {k : Nat} {name : String} {fields : List (String × Option Json)}
    (h : name ∉ namesOf fields) :
    (saying k (present fields)).filter (fun (n, _) => n == some name) = [] := by
  rw [List.filter_eq_nil_iff]
  intro d hd
  obtain ⟨f, hf, rfl⟩ := List.mem_map.mp hd
  obtain ⟨⟨n, v⟩, hmem, hsome⟩ := List.mem_filterMap.mp hf
  obtain ⟨w, rfl, rfl⟩ := Option.map_eq_some_iff.mp hsome
  simp only [beq_iff_eq, Option.some_inj]
  rintro rfl
  exact h (List.mem_map_of_mem hmem)

theorem single?_present (k : Nat) {fields : List (String × Option Json)}
    (hnodup : (namesOf fields).Nodup) {name : String} {v : Option Json} (hmem : (name, v) ∈ fields) :
    single? name (saying k (present fields)) = some (v.map fun w => w.asRead.limitDepth k) := by
  induction fields with
  | nil => exact nomatch hmem
  | cons f fields ih =>
    obtain ⟨n, u⟩ := f
    obtain ⟨hfresh, hrest⟩ := List.nodup_cons.mp hnodup
    rw [present_cons, saying, List.map_append, single?, List.filter_append]
    by_cases hn : n = name
    · subst hn
      have hnone := filter_saying_eq_nil (k := k) hfresh
      obtain rfl : v = u := by
        rcases List.mem_cons.mp hmem with heq | hmem
        · exact (Prod.mk.inj heq).2
        · exact absurd (List.mem_map_of_mem hmem) hfresh
      rw [saying] at hnone
      rw [hnone, List.append_nil]
      cases v <;> simp
    · have hother : ((u.map (n, ·)).toList.map fun f =>
          (some f.1, f.2.asRead.limitDepth k)).filter (fun (m, _) => m == some name) = [] := by
        cases u <;> simp [hn]
      rw [hother, List.nil_append]
      refine ih hrest ((List.mem_cons.mp hmem).resolve_left fun heq => hn ?_)
      exact (Prod.mk.inj heq).1.symm

/-- A record without its absent fields is read field by field. -/
theorem record?_present (k : Nat) {fields : List (String × Option Json)}
    (hnodup : (namesOf fields).Nodup) :
    ((Json.obj (present fields)).asRead.limitDepth (k + 1)).record? (namesOf fields) =
      some (fields.map fun f => f.2.map fun w => w.asRead.limitDepth k) := by
  have hnamed : (saying k (present fields)).any (fun (n, _) => n.isNone) = false := by
    simp [saying]
  have hsingle : (namesOf fields).mapM (single? · (saying k (present fields))) =
      some (fields.map fun f => f.2.map fun w => w.asRead.limitDepth k) := by
    rw [namesOf, List.mapM_map]
    exact mapM_eq_some_map fun f hf => single?_present k hnodup hf
  rw [limitDepth_obj, record?, hnamed]
  exact hsingle

/-- Texts are read as they are. -/
theorem texts?_strings (k : Nat) (texts : List String) :
    texts? ((Json.strings texts).asRead.limitDepth (k + 1)) = some texts := by
  have hitems : ∀ ss : List String, limitDepthItems k (Json.itemsAsRead (ss.map .str)) =
      ss.map Document.str := by
    intro ss
    induction ss with
    | nil => rfl
    | cons s ss ih =>
      rw [List.map_cons, Json.itemsAsRead, limitDepthItems, ih, Json.asRead, List.map_cons]
      cases k <;> rfl
  show (limitDepthItems k _).mapM text? = _
  rw [hitems, List.mapM_map]
  exact (mapM_eq_some_map fun s _ => rfl).trans (congrArg some (List.map_id' texts))

theorem limitDepth_scalar (k : Nat) {v : Json} (h : v.isScalar = true) :
    v.asRead.limitDepth k = v.asRead := by
  cases v with
  | arr _ => exact absurd h Bool.false_ne_true
  | obj _ => exact absurd h Bool.false_ne_true
  | num n =>
    rw [Json.asRead]
    cases n.readBack? <;> cases k <;> rfl
  | _ => cases k <;> rfl

theorem optional_num {α : Type} (read : Document → Option α) (n : Number) :
    optional read (some (.num n)) = (read (.num n)).map some := rfl

theorem nat?_int {bound : Nat} {n : Integer} (hlow : 0 ≤ n.val) (hhigh : n.val < bound) :
    nat? bound (.num (.int n)) = some n.val.toNat :=
  if_pos ⟨hlow, hhigh⟩

/-- A word is read as it is. -/
theorem word32?_ofUInt64 (n : UInt32) : word32? (.num (.ofUInt64 n.toUInt64)) = some n := by
  have hlt : n.toUInt64.toNat < UInt32.size := by
    rw [UInt32.toNat_toUInt64]
    exact n.toNat_lt_size
  have hnat : nat? UInt32.size (.num (.ofUInt64 n.toUInt64)) = some n.toUInt64.toNat :=
    nat?_int (n := .ofUInt64 n.toUInt64) (Int.natCast_nonneg _) (Int.ofNat_lt.mpr hlt)
  rw [word32?, hnat, Option.map_some, UInt32.toNat_toUInt64, UInt32.ofNat_toNat]

/-- A value that may be left out; a null stands for none as well. -/
theorem optional_value? (k : Nat) (v : Json) :
    optional value? (some (v.asRead.limitDepth k)) =
      if v.isNull then some none else (v.readBack? k).map some := by
  cases v with
  | null => cases k <;> rfl
  | num n =>
    rw [Json.readBack?_number, limitDepth_scalar k rfl, Json.asRead]
    cases n.readBack? <;> rfl
  | _ => cases k <;> rfl

end Document

open Document

/-! ## Columns -/

namespace Column

def turnedOn (on : Bool) : Option Json := if on then some (.bool true) else none

/-- The fields of a recorded column, absent ones included. -/
def recordFields (c : Column) : List (String × Option Json) :=
  [("type", some (.str c.kind.name)), ("length", c.length.map fun n => .ofUInt64 n.toUInt64),
    ("required", turnedOn c.required), ("unique", turnedOn c.unique),
    ("primary", turnedOn c.primary), ("autoIncrement", turnedOn c.autoIncrement),
    ("default", c.default), ("index", turnedOn c.index),
    ("enum", if c.values.isEmpty then none else some (.strings c.values))]

theorem json_eq_present (c : Column) : c.json = .obj (present c.recordFields) := by
  have hflag : ∀ name on, ((turnedOn on).map (name, ·)).toList = flag name on := by
    intro name on
    cases on <;> rfl
  have hmap : ∀ {α : Type} (o : Option α) (f : α → Json) (name : String),
      ((o.map f).map (name, ·)).toList = (o.map fun v => (name, f v)).toList := by
    intro α o f name
    cases o <;> rfl
  have hvalues : ((if c.values.isEmpty then none else some (Json.strings c.values)).map
      ("enum", ·)).toList = if c.values.isEmpty then [] else [("enum", .strings c.values)] := by
    split <;> rfl
  simp only [recordFields, present_cons, hflag, hmap, hvalues, json]
  simp [present]

/-- The default that is read back from the text of a column. -/
def readDefault? : Option Json → Option (Option Json)
  | none => some none
  | some v => if v.isNull then some none else (v.readBack? 125).map some

/-- The column that is read back from the text of a schema. -/
def readBack? (c : Column) : Option Column := read? (c.json.asRead.limitDepth 126)

/-- All of a column but its default reads back as it was. -/
theorem readBack?_eq (c : Column) :
    c.readBack? = (readDefault? c.default).map fun d => { c with default := d } := by
  have hnodup : (namesOf c.recordFields).Nodup := show fieldNames.Nodup by decide
  have hrecord := record?_present 125 hnodup
  have hkind : Document.required readKind? (some ((Json.str c.kind.name).asRead.limitDepth 125)) =
      some c.kind := by
    rw [limitDepth_scalar 125 (v := Json.str c.kind.name) rfl, Json.asRead]
    exact ColumnKind.ofName?_name c.kind
  have hlength : optional word32? ((c.length.map fun n => Json.ofUInt64 n.toUInt64).map
      fun v => v.asRead.limitDepth 125) = some c.length := by
    cases c.length with
    | none => rfl
    | some n =>
      have hread : (Json.ofUInt64 n.toUInt64).asRead = .num (.ofUInt64 n.toUInt64) := by
        rw [Json.ofUInt64, Json.asRead, Number.ofUInt64, Number.readBack?_int]
        rfl
      show optional word32? (some ((Json.ofUInt64 n.toUInt64).asRead.limitDepth 125)) = _
      rw [limitDepth_scalar 125 (v := Json.ofUInt64 n.toUInt64) rfl, hread]
      rw [optional_num, word32?_ofUInt64]
      rfl
  have hflag : ∀ on, orElse false bool? ((turnedOn on).map fun v => v.asRead.limitDepth 125) =
      some on := by
    intro on
    cases on <;> rfl
  have hdefault : optional value? (c.default.map fun v => v.asRead.limitDepth 125) =
      readDefault? c.default := by
    cases c.default with
    | none => rfl
    | some v => exact optional_value? 125 v
  have hvalues : orElse [] texts? ((if c.values.isEmpty then none
      else some (Json.strings c.values)).map fun v => v.asRead.limitDepth 125) = some c.values := by
    split
    · rename_i hempty
      rw [List.isEmpty_iff.mp hempty]
      rfl
    · exact texts?_strings 124 c.values
  have hnames : namesOf c.recordFields = fieldNames := rfl
  rw [hnames] at hrecord
  unfold readBack? read?
  rw [json_eq_present, hrecord]
  simp only [recordFields, List.map_cons, List.map_nil, Option.map_some]
  rw [hkind, hlength, hflag, hflag, hflag, hflag, hdefault, hflag, hvalues]
  cases readDefault? c.default <;> rfl

/-- A number in the default reads back as its text has it. -/
theorem readBack?_number {c : Column} {n m : Number} (hc : c.default = some (.num n))
    (h : n.readBack? = some m) : c.readBack? = some { c with default := some (.num m) } := by
  have hdefault : readDefault? c.default = ((Json.num n).readBack? 125).map some := by
    rw [hc]
    rfl
  rw [readBack?_eq, hdefault, Json.readBack?_number, h]
  rfl

/-- No object in the default repeats a name. -/
def Distinct (c : Column) : Prop := ∀ v ∈ c.default, v.Distinct

theorem distinct_of_read? {d : Document} {c : Column} (h : read? d = some c) : c.Distinct := by
  have hdefault : ∀ {field : Option Document} {o : Option Json},
      optional value? field = some o → ∀ v ∈ o, v.Distinct := by
    intro field o hfield v hv
    obtain rfl : o = some v := hv
    unfold Document.optional at hfield
    split at hfield
    · cases hfield
    · cases hfield
    · rename_i d _
      obtain ⟨w, hw, hsame⟩ := Option.map_eq_some_iff.mp hfield
      obtain rfl : w = v := Option.some.inj hsame
      exact Json.distinct_of_value? d hw
  unfold read? at h
  split at h
  · simp only [Option.bind_eq_bind, Option.bind_eq_some_iff, Option.some_inj] at h
    obtain ⟨_, _, _, _, _, _, _, _, _, _, _, _, _, hread, _, _, _, _, rfl⟩ := h
    exact hdefault hread
  · cases h

theorem sameDefinition_refl {c : Column} (hc : c.Distinct) : c.sameDefinition c = true := by
  have hdefault : sameDefault c.default c.default = true := by
    cases hd : c.default with
    | none => rfl
    | some v => exact Json.sameValue_refl v (hc v hd)
  simp [sameDefinition, hdefault]

theorem readDefault?_of_sameDefault {o p p' : Option Json} (ho : ∀ v ∈ o, v.Distinct)
    (hp : ∀ v ∈ p, v.Distinct) (h : sameDefault o p = true) (hread : readDefault? p = some p') :
    ∃ o', readDefault? o = some o' ∧ sameDefault o' p' = true := by
  cases o with
  | none =>
    cases p with
    | none =>
      obtain rfl := Option.some.inj hread
      exact ⟨none, rfl, h⟩
    | some w => exact nomatch h
  | some v =>
    cases p with
    | none => exact nomatch h
    | some w =>
      have hnull : v.isNull = w.isNull := by
        cases v <;> cases w <;> first | rfl | simp [sameDefault, Json.sameValue] at h
      unfold readDefault? at hread ⊢
      simp only [hnull] at hread ⊢
      split at hread
      · rename_i hw
        obtain rfl := Option.some.inj hread
        exact ⟨none, if_pos hw, rfl⟩
      · rename_i hw
        obtain ⟨w', hw', rfl⟩ := Option.map_eq_some_iff.mp hread
        obtain ⟨v', hv', hsame⟩ := Json.readBack?_of_sameValue v w (ho v rfl) (hp w rfl) h hw'
        exact ⟨some v', by rw [if_neg hw, hv', Option.map_some], hsame⟩

/-- Columns that are defined alike still are once they are read back. -/
theorem readBack?_of_sameDefinition {c d d' : Column} (hc : c.Distinct) (hd : d.Distinct)
    (h : c.sameDefinition d = true) (hread : d.readBack? = some d') :
    ∃ c', c.readBack? = some c' ∧ c'.sameDefinition d' = true := by
  rw [readBack?_eq] at hread
  obtain ⟨p, hp, rfl⟩ := Option.map_eq_some_iff.mp hread
  unfold sameDefinition at h
  simp only [Bool.and_eq_true, beq_iff_eq] at h
  obtain ⟨⟨⟨hfirst, hdefault⟩, hindex⟩, hvalues⟩ := h
  obtain ⟨o, ho, hsame⟩ := readDefault?_of_sameDefault hc hd hdefault hp
  refine ⟨{ c with default := o }, ?_, ?_⟩
  · rw [readBack?_eq, ho, Option.map_some]
  · unfold sameDefinition
    simp only [Bool.and_eq_true, beq_iff_eq]
    exact ⟨⟨⟨hfirst, hsame⟩, hindex⟩, hvalues⟩

end Column

/-! ## Schemas -/

namespace TableSchema

open OrderedMap

/-- No object in a default repeats a name. -/
def Distinct (s : TableSchema) : Prop := ∀ name c, s.get? name = some c → c.Distinct

def ReadsBackColumns : List (String × Column) → List (String × Column) → Prop :=
  Paired fun c d => c.readBack? = some d

theorem readColumns?_eq_some_iff {cs ds : List (String × Column)} :
    readColumns? (saying 126 (cs.map fun (name, c) => (name, c.json))) = some ds ↔
      ReadsBackColumns cs ds := by
  induction cs generalizing ds with
  | nil =>
    rw [ReadsBackColumns, Paired, List.forall₂_nil_left_iff, eq_comm]
    exact Option.some_inj
  | cons e cs ih =>
    obtain ⟨name, c⟩ := e
    simp only [saying, List.map_cons, readColumns?, Option.bind_eq_bind, Option.bind_eq_some_iff,
      Option.some_inj, ReadsBackColumns, Paired, List.forall₂_cons_left_iff]
    constructor
    · rintro ⟨d, hd, ds, hds, rfl⟩
      exact ⟨(name, d), ds, ⟨rfl, hd⟩, ih.mp hds, rfl⟩
    · rintro ⟨⟨_, d⟩, ds, ⟨rfl, hd⟩, hds, rfl⟩
      exact ⟨d, hd, ds, ih.mpr hds, rfl⟩

/-- A schema is read back column by column. -/
theorem parse?_text_eq_some_iff {s t : TableSchema} :
    parse? s.text = some t ↔ ReadsBackColumns s.entries t.entries := by
  have hread : parse? s.text =
      (readColumns? (saying 126 (s.entries.map fun (name, c) => (name, c.json)))).map .ofList := by
    unfold parse? text
    have hlimit : depthLimit = 126 + 1 := rfl
    rw [Document.parse?_text, json, hlimit, limitDepth_obj]
    rfl
  have hofList : ∀ {ds}, ReadsBackColumns s.entries ds → (OrderedMap.ofList ds).entries = ds :=
    fun hds => ofPairs_of_nodup (hds.namesOf_eq ▸ s.distinct)
  rw [hread, Option.map_eq_some_iff]
  constructor
  · rintro ⟨ds, hds, rfl⟩
    have hcolumns := readColumns?_eq_some_iff.mp hds
    rw [hofList hcolumns]
    exact hcolumns
  · intro h
    exact ⟨t.entries, readColumns?_eq_some_iff.mpr h, OrderedMap.ext (hofList h)⟩

/-- The schema is unchanged by being written and read back. -/
def Stable (s : TableSchema) : Prop := parse? s.text = some s

theorem stable_iff {s : TableSchema} :
    s.Stable ↔ ∀ name c, s.get? name = some c → c.readBack? = some c := by
  unfold Stable
  rw [parse?_text_eq_some_iff, ReadsBackColumns, Paired, List.forall₂_same]
  constructor
  · exact fun h name c hget => (h (name, c) (get?_eq_some_iff.mp hget)).2
  · exact fun h e he => ⟨rfl, h e.1 e.2 (get?_eq_some_iff.mpr he)⟩

/-- Without defaults there is nothing that could read back otherwise. -/
theorem stable_of_noDefaults {s : TableSchema}
    (h : ∀ name c, s.get? name = some c → c.default = none) : s.Stable := by
  refine stable_iff.mpr fun name c hget => ?_
  obtain ⟨kind, length, required, unique, primary, autoIncrement, default, index, values⟩ := c
  obtain rfl : default = none := h name _ hget
  exact Column.readBack?_eq _

theorem stable_ofList {columns : List (String × Column)} (h : ∀ e ∈ columns, e.2.default = none) :
    Stable (.ofList columns) :=
  stable_of_noDefaults fun name c hget => h (name, c) (mem_of_mem_ofPairs (get?_eq_some_iff.mp hget))

theorem Stable.distinct {s : TableSchema} (h : s.Stable) : s.Distinct :=
  fun name c hget => Column.distinct_of_read? (stable_iff.mp h name c hget)

/-- Columns that read back as themselves make up a merged schema that does so. -/
theorem Stable.merge {stored : TableSchema} {d : SchemaDiff} (hstored : stored.Stable)
    (hadded : d.added.Stable) (hchanged : d.changed.Stable) : (stored.merge d).Stable := by
  refine stable_iff.mpr fun name c hget => ?_
  rw [get?_merge] at hget
  split at hget
  · exact nomatch hget
  · obtain ⟨old, hold, rfl⟩ := Option.map_eq_some_iff.mp hget
    cases hnew : d.changed.get? name with
    | some new => exact stable_iff.mp hchanged name new hnew
    | none =>
      rcases Option.or_eq_some_iff.mp hold with hold | ⟨_, hold⟩
      · exact stable_iff.mp hadded name old hold
      · exact stable_iff.mp hstored name old hold

theorem distinct_of_read? {d : Document} {s : TableSchema} (h : read? d = some s) :
    s.Distinct := by
  have hcolumns : ∀ fs cs, readColumns? fs = some cs → ∀ e ∈ cs, e.2.Distinct := by
    intro fs
    induction fs with
    | nil =>
      rintro cs ⟨⟩ e he
      exact absurd he List.not_mem_nil
    | cons f fs ih =>
      intro cs hcs
      obtain ⟨_ | name, d⟩ := f
      · cases hcs
      · simp only [readColumns?, Option.bind_eq_bind, Option.bind_eq_some_iff,
          Option.some_inj] at hcs
        obtain ⟨c, hc, cs, hcs, rfl⟩ := hcs
        rw [List.forall_mem_cons]
        exact ⟨Column.distinct_of_read? hc, ih cs hcs⟩
  unfold read? at h
  split at h
  · obtain ⟨cs, hcs, rfl⟩ := Option.map_eq_some_iff.mp h
    intro name c hget
    exact hcolumns _ cs hcs (name, c) (mem_of_mem_ofPairs (get?_eq_some_iff.mp hget))
  · cases h

/-! ## Content -/

theorem sameContent_refl {s : TableSchema} (h : s.Distinct) : s.sameContent s = true := by
  refine sameContent_iff.mpr fun name => ?_
  cases hget : s.get? name with
  | none => exact .none
  | some c => exact .some (Column.sameDefinition_refl (h name c hget))

theorem distinct_merge_diff {stored desired : TableSchema} (hstored : stored.Distinct)
    (hdesired : desired.Distinct) : (stored.merge (stored.diff desired)).Distinct := by
  intro name c hget
  rw [get?_merge_diff] at hget
  obtain ⟨d, hd, rfl⟩ := Option.map_eq_some_iff.mp hget
  unfold mergedColumn
  split
  · rename_i current hcurrent
    split
    · exact hstored name current hcurrent
    · exact hdesired name d hd
  · exact hdesired name d hd

/-- After the difference to a desired schema its content is there. -/
theorem sameContent_merge_diff {desired : TableSchema} (hdesired : desired.Distinct)
    (stored : TableSchema) :
    (stored.merge (stored.diff desired)).sameContent desired = true := by
  refine sameContent_iff.mpr fun name => ?_
  rw [get?_merge_diff]
  cases hd : desired.get? name with
  | none => exact .none
  | some d =>
    refine .some ?_
    unfold mergedColumn
    split
    · split
      · assumption
      · exact Column.sameDefinition_refl (hdesired name d hd)
    · exact Column.sameDefinition_refl (hdesired name d hd)

/-- A schema without repeated names keeps the content it shares once both are read back. -/
theorem parse?_of_sameContent {s t t' : TableSchema} (hs : s.Distinct) (ht : t.Distinct)
    (h : s.sameContent t = true) (hparse : parse? t.text = some t') :
    ∃ s', parse? s.text = some s' ∧ s'.sameContent t' = true := by
  have hread := parse?_text_eq_some_iff.mp hparse
  -- what stands under one name is read back on both sides
  have hcolumns : ∀ name c, s.get? name = some c → ∃ c' d', t'.get? name = some d' ∧
      c.readBack? = some c' ∧ c'.sameDefinition d' = true := by
    intro name c hget
    obtain ⟨d, hd, hcd⟩ := exists_of_sameContent h hget
    obtain ⟨d', hd', hread'⟩ := hread.lookup hd
    obtain ⟨c', hc', hsame⟩ :=
      Column.readBack?_of_sameDefinition (hs name c hget) (ht name d hd) hcd hread'
    exact ⟨c', d', hd', hc', hsame⟩
  obtain ⟨es', hes'⟩ : ∃ es', ReadsBackColumns s.entries es' := by
    refine Paired.exists_right fun e he => ?_
    obtain ⟨c', _, _, hc', _⟩ := hcolumns e.1 e.2 (get?_eq_some_iff.mpr he)
    exact ⟨c', hc'⟩
  have hnodup : (namesOf es').Nodup := hes'.namesOf_eq ▸ s.distinct
  refine ⟨⟨es', hnodup⟩, parse?_text_eq_some_iff.mpr hes', sameContent_iff.mpr fun name => ?_⟩
  show Option.Rel _ (es'.lookup name) (t'.get? name)
  cases hc : s.get? name with
  | none =>
    have hleft : es'.lookup name = none := by
      rw [Option.eq_none_iff_forall_ne_some]
      intro c' hc'
      obtain ⟨c, hlookup, _⟩ := hes'.lookup_right hc'
      exact nomatch hc.symm.trans hlookup
    have hright : t'.get? name = none := by
      rw [Option.eq_none_iff_forall_ne_some]
      intro d' hd'
      obtain ⟨d, hlookup, _⟩ := hread.lookup_right hd'
      exact nomatch (get?_eq_none_of_sameContent h hc).symm.trans hlookup
    rw [hleft, hright]
    exact .none
  | some c =>
    obtain ⟨c'', d', hd', hc'', hsame⟩ := hcolumns name c hc
    obtain ⟨c', hlookup, hc'⟩ := hes'.lookup hc
    obtain rfl : c' = c'' := Option.some.inj (hc'.symm.trans hc'')
    rw [hlookup, hd']
    exact .some hsame

end TableSchema

end ContentTables
