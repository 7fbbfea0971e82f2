import ContentTables.Proofs.Entries
import ContentTables.Proofs.Query.Placeholders
import ContentTables.Proofs.Query.Restricted
import ContentTables.Proofs.Sql.Spans

/-!
# Values of rows that are written

A value that is written has one placeholder, in the place of its column. Whether it keeps that one
placeholder is decided when the statement is expanded, and there an array is a list of values,
whatever it was meant for. Object, array and bool columns encode an array; in any other column it
comes through.

* `Column.isArray_encode`, `TableSchema.EncodesArrays` : which columns let an array through, and
  rows that give them none;
* `TableSchema.noArray_prepareInsert_iff`, `TableSchema.noArray_prepareUpdate_iff` : then the row to
  be written has no array in it;
* `flatMap_spread_eq_self_iff` : parameters stay as they are only if there is no array among them;
* `params_expand_update`, `sql_expand_update` : the row and the condition are expanded each on its
  own;
* `bound_once_iff` : each column that is written keeps its one placeholder and its value exactly if
  no array comes through.
-/

namespace ContentTables

/-! ## Arrays in a row -/

theorem Column.isArray_encode (c : Column) (v : Json) :
    (c.encode v).isArray = (v.isArray && !c.kind.isJson && c.kind != .bool) := by
  unfold encode
  cases v with
  | null => rfl
  | _ =>
    cases c.kind <;> simp [Json.isNull, Json.isArray, encodeJson, ColumnKind.isJson,
      Json.ofUInt64]

namespace TableSchema

/-- Every array goes to a column that stores something else in its place. -/
def EncodesArrays (schema : TableSchema) (row : Row) : Prop :=
  ∀ name c v, schema.get? name = some c → row.get? name = some v → v.isArray = true →
    c.kind.isJson = true ∨ c.kind = .bool

theorem encodesArrays_iff {schema : TableSchema} {row : Row} : schema.EncodesArrays row ↔
    ∀ name c v, schema.get? name = some c → row.get? name = some v →
      (c.encode v).isArray = false := by
  refine forall_congr' fun name => forall_congr' fun c => forall_congr' fun v =>
    forall_congr' fun _ => forall_congr' fun _ => ?_
  rw [c.isArray_encode]
  cases v.isArray <;> cases c.kind <;> decide

/-- What an insert makes of one column. -/
theorem insertEntry_cases {now : String} {row : Row} {name : String} {c : Column}
    {es : List (String × Json)} (h : insertEntry now row name c = .ok es) :
    (∃ v, row.get? name = some v ∧ es = [(name, c.encode v)]) ∨
      ((∀ v, row.get? name = some v → v = .null) ∧ (es = [] ∨ es = [(name, .str now)])) := by
  unfold insertEntry at h
  split at h
  · rename_i v hv
    split at h
    · exact Or.inl ⟨v, hv, (Except.ok.inj h).symm⟩
    · rename_i hnull
      have hv' : v = .null := by cases v <;> simp_all [Json.isNull]
      subst hv'
      split at h
      · exact nomatch h
      · split at h
        · refine Or.inr ⟨fun w hw => ?_, Or.inr (Except.ok.inj h).symm⟩
          exact (Option.some.inj (hv.symm.trans hw)).symm
        · exact Or.inl ⟨.null, hv, (Except.ok.inj h).symm⟩
  · rename_i hnone
    have hnull : ∀ v, row.get? name = some v → v = .null :=
      fun v hv => nomatch hnone.symm.trans hv
    split at h
    · exact nomatch h
    · split at h
      · exact Or.inr ⟨hnull, Or.inr (Except.ok.inj h).symm⟩
      · exact Or.inr ⟨hnull, Or.inl (Except.ok.inj h).symm⟩

theorem noArray_insertEntry {now : String} {row : Row} {name : String} {c : Column}
    {es : List (String × Json)} (h : insertEntry now row name c = .ok es) :
    (∀ e ∈ es, e.2.isArray = false) ↔
      ∀ v, row.get? name = some v → (c.encode v).isArray = false := by
  rcases insertEntry_cases h with ⟨v, hv, rfl⟩ | ⟨hnull, hes⟩
  · rw [List.forall_mem_singleton, hv]
    exact ⟨fun h w hw => Option.some.inj hw ▸ h, fun h => h v rfl⟩
  · refine iff_of_true ?_ fun v hv => ?_
    · rcases hes with rfl | rfl
      · exact List.forall_mem_nil _
      · exact List.forall_mem_singleton.mpr rfl
    · rw [hnull v hv]
      rfl

theorem names_insertEntry {now : String} {row : Row} {name : String} {c : Column}
    {es : List (String × Json)} (h : insertEntry now row name c = .ok es) :
    (namesOf es).Sublist [name] := by
  rcases insertEntry_cases h with ⟨v, _, rfl⟩ | ⟨_, rfl | rfl⟩
  · exact List.Sublist.refl _
  · exact List.nil_sublist _
  · exact List.Sublist.refl _

theorem insertEntries_spec {now : String} {row : Row} {columns : List (String × Column)}
    {es : List (String × Json)} (h : insertEntries now row columns = .ok es) :
    ((∀ e ∈ es, e.2.isArray = false) ↔ ∀ p ∈ columns, ∀ v, row.get? p.1 = some v →
      (p.2.encode v).isArray = false) ∧ (namesOf es).Sublist (namesOf columns) := by
  induction columns generalizing es with
  | nil =>
    cases h
    exact ⟨iff_of_true (List.forall_mem_nil _) (List.forall_mem_nil _), List.Sublist.refl _⟩
  | cons p columns ih =>
    obtain ⟨name, c⟩ := p
    rw [insertEntries] at h
    cases hhere : insertEntry now row name c with
    | error e =>
      rw [hhere] at h
      exact nomatch h
    | ok here =>
      rw [hhere] at h
      cases hrest : insertEntries now row columns with
      | error e =>
        rw [hrest] at h
        exact nomatch h
      | ok others =>
        rw [hrest] at h
        obtain rfl : here ++ others = es := Except.ok.inj h
        obtain ⟨hothers, hnames⟩ := ih hrest
        rw [List.forall_mem_append, noArray_insertEntry hhere, hothers, List.forall_mem_cons,
          namesOf_append]
        exact ⟨Iff.rfl, (names_insertEntry hhere).append hnames⟩

/-- What an insert writes holds an array only if the row gave one to a column that keeps it. -/
theorem noArray_prepareInsert_iff {schema : TableSchema} {now : String} {row prepared : Row}
    (h : schema.prepareInsert now row = .ok prepared) :
    (∀ v ∈ prepared.entries.map Prod.snd, v.isArray = false) ↔ schema.EncodesArrays row := by
  unfold prepareInsert at h
  cases hes : insertEntries now row schema.entries with
  | error e =>
    rw [hes] at h
    exact nomatch h
  | ok es =>
    rw [hes] at h
    obtain rfl := Except.ok.inj h
    obtain ⟨hvalues, hnames⟩ := insertEntries_spec hes
    have hentries : (OrderedMap.ofList es).entries = es :=
      ofPairs_of_nodup (schema.distinct.sublist hnames)
    rw [hentries, List.forall_mem_map, hvalues, encodesArrays_iff]
    constructor
    · exact fun h name c v hc => h (name, c) (OrderedMap.get?_eq_some_iff.mp hc) v
    · exact fun h p hp v => h p.1 p.2 v (OrderedMap.get?_eq_some_iff.mpr hp)

theorem names_updateEntries (schema : TableSchema) (row : Row) :
    namesOf (schema.updateEntries row) = row.names.filter schema.contains := by
  unfold updateEntries OrderedMap.names
  induction row.entries with
  | nil => rfl
  | cons e es ih =>
    obtain ⟨name, v⟩ := e
    have hnames : namesOf ((name, v) :: es) = name :: namesOf es := rfl
    rw [hnames, List.filter_cons, List.filterMap_cons, ← ih]
    cases hc : schema.get? name with
    | none => simp [OrderedMap.contains, hc]
    | some c => simp [OrderedMap.contains, hc, namesOf]

theorem entries_prepareUpdate {schema : TableSchema} {row prepared : Row}
    (h : schema.prepareUpdate row = .ok prepared) :
    prepared.entries = schema.updateEntries row := by
  unfold prepareUpdate at h
  simp only at h
  split at h
  · exact nomatch h
  · obtain rfl := Except.ok.inj h
    refine ofPairs_of_nodup ?_
    rw [names_updateEntries]
    exact row.distinct.filter _

theorem mem_updateEntries {schema : TableSchema} {row : Row} {e : String × Json} :
    e ∈ schema.updateEntries row ↔
      ∃ c v, schema.get? e.1 = some c ∧ row.get? e.1 = some v ∧ e.2 = c.encode v := by
  simp only [updateEntries, List.mem_filterMap, Option.map_eq_some_iff, Prod.exists]
  constructor
  · rintro ⟨name, v, hv, c, hc, rfl⟩
    exact ⟨c, v, hc, OrderedMap.get?_eq_some_iff.mpr hv, rfl⟩
  · rintro ⟨c, v, hc, hv, he⟩
    exact ⟨e.1, v, OrderedMap.get?_eq_some_iff.mp hv, c, hc, Prod.ext rfl he.symm⟩

theorem noArray_prepareUpdate_iff {schema : TableSchema} {row prepared : Row}
    (h : schema.prepareUpdate row = .ok prepared) :
    (∀ v ∈ prepared.entries.map Prod.snd, v.isArray = false) ↔ schema.EncodesArrays row := by
  rw [entries_prepareUpdate h, List.forall_mem_map, encodesArrays_iff]
  constructor
  · exact fun h name c v hc hv => h (name, c.encode v) (mem_updateEntries.mpr ⟨c, v, hc, hv, rfl⟩)
  · intro h e he
    obtain ⟨c, v, hc, hv, hencoded⟩ := mem_updateEntries.mp he
    rw [hencoded]
    exact h e.1 c v hc hv

end TableSchema

/-! ## Arrays among the parameters -/

/-- A size that every array has more of than its elements together. -/
noncomputable def totalSize (vs : List Json) : Nat := (vs.map sizeOf).sum

theorem totalSize_lt (items : List Json) : totalSize items < sizeOf (Json.arr items) := by
  have hle : totalSize items < sizeOf items := by
    unfold totalSize
    induction items with
    | nil => decide
    | cons v vs ih =>
      rw [List.map_cons, List.sum_cons, List.cons.sizeOf_spec]
      omega
  rw [Json.arr.sizeOf_spec]
  omega

theorem totalSize_flatMap_spread_le (vs : List Json) :
    totalSize (vs.flatMap spread) ≤ totalSize vs := by
  unfold totalSize
  induction vs with
  | nil => exact Nat.le_refl _
  | cons v vs ih =>
    rw [List.flatMap_cons, List.map_append, List.sum_append, List.map_cons, List.sum_cons]
    refine Nat.add_le_add ?_ ih
    cases v with
    | arr items => exact (totalSize_lt items).le
    | _ => exact Nat.le_refl _

theorem flatMap_spread_eq_self_iff {vs : List Json} :
    vs.flatMap spread = vs ↔ ∀ v ∈ vs, v.isArray = false := by
  refine ⟨fun h => ?_, flatMap_spread_of_noArray⟩
  induction vs with
  | nil => exact List.forall_mem_nil _
  | cons v vs ih =>
    cases v with
    | arr items =>
      have hsize := congrArg totalSize h
      have hle := totalSize_flatMap_spread_le vs
      have hlt := totalSize_lt items
      rw [List.flatMap_cons] at hsize
      simp only [totalSize, spread, List.map_append, List.sum_append, List.map_cons,
        List.sum_cons] at hsize hle hlt
      omega
    | _ => exact List.forall_mem_cons.mpr ⟨rfl, ih (List.cons.inj h).2⟩

/-! ## Expanding what is written -/

theorem Aligned.params_expand {ps : List Piece} {s : Statement} (h : Aligned ps s.params)
    (hs : Spelled s.sql ps) : s.expand.params = s.params.flatMap spread := by
  rw [(h.expand hs).2]
  exact List.flatMap_congr fun v _ => by rw [fill_eq]

theorem Condition.WellShaped.aligned {c : Condition} (h : c.WellShaped) (table : Option String) :
    Aligned (c.pieces table) (c.compile table).statement.params :=
  aligned_pieces h.fitting table

/-- The list operands give way to their values. -/
theorem Condition.params_expand {c : Condition} (h : c.WellShaped) (table : Option String) :
    (c.compile table).statement.expand.params = c.operands.flatMap Operand.values := by
  rw [((h.aligned table).expand (c.spelled_compile table)).2]
  show (c.compile table).params.flatMap _ = _
  rw [c.params_compile, List.flatMap_assoc]
  exact List.flatMap_congr fun operand hmem => (Operand.filled (h.scalars operand hmem)).1

section Insert
variable (naming : TableNaming) (table : String) (row : Row)

theorem params_expand_insert : (insertStatement naming table row).expand.params =
    (row.entries.map Prod.snd).flatMap spread :=
  (aligned_insert naming table row).params_expand (spelled_insert naming table row)

theorem expand_insert (h : ∀ v ∈ row.entries.map Prod.snd, v.isArray = false) :
    (insertStatement naming table row).expand = insertStatement naming table row := by
  unfold Statement.expand
  rw [if_neg]
  refine Bool.eq_false_iff.mp (List.any_eq_false.mpr fun v hv => ?_)
  exact Bool.eq_false_iff.mp (h v hv)

theorem count_insert :
    (unquotedChars (insertStatement naming table row).sql.toList).count '?' = row.size := by
  have hspelled := spelled_insert naming table row
  rw [hspelled.text, unquotedChars_chars hspelled.calm, count_unquoted hspelled.calm,
    (aligned_insert naming table row).markCount_eq]
  exact List.length_map _

end Insert

section Update
variable {naming : TableNaming} {table : String} {row : Row} {c : Condition} {s : Statement}

theorem exists_updateStatement (naming : TableNaming) (table : String) (row : Row)
    (hfield : c.hasField = true) : ∃ s, updateStatement naming table row c = .ok s := by
  unfold updateStatement
  simp only [Condition.isEmpty_compile, hfield]
  exact ⟨_, rfl⟩

/-- The row and the condition are expanded each on its own. -/
theorem params_expand_update (hc : c.WellShaped)
    (hs : updateStatement naming table row c = .ok s) :
    s.expand.params = (row.entries.map Prod.snd).flatMap spread ++
      (c.compile (some (naming.physical table))).statement.expand.params := by
  obtain ⟨haligned, hparams⟩ := aligned_update hc.fitting hs
  rw [haligned.params_expand (spelled_update hs), hparams, List.flatMap_append,
    (hc.aligned _).params_expand (c.spelled_compile _)]
  rfl

theorem sql_expand_update (hc : c.WellShaped) (hfield : c.hasField = true)
    (hs : updateStatement naming table row c = .ok s)
    (h : ∀ v ∈ row.entries.map Prod.snd, v.isArray = false) :
    s.expand.sql = "UPDATE " ++ naming.quoted table ++ " SET " ++
      commaSeparated (row.names.map (quoteIdent · ++ " = ?")) ++ " WHERE " ++
        (c.compile (some (naming.physical table))).statement.expand.sql := by
  obtain ⟨haligned, hparams⟩ := aligned_update hc.fitting hs
  obtain ⟨hsql, -⟩ := haligned.expand (spelled_update hs)
  obtain ⟨hclause, -⟩ := (hc.aligned (some (naming.physical table))).expand (c.spelled_compile _)
  have hset := aligned_assignments row
  rw [hparams, updatePieces, Condition.wherePieces_pieces hfield, filled_cons rfl, filled_cons rfl,
    filled_cons rfl, hset.filled_append, (hset.filled_of_noArray h).1, filled_cons rfl] at hsql
  rw [← String.toList_inj, hsql]
  simp only [String.toList_append, (spelled_assignments row.names).text, hclause,
    List.flatMap_cons, List.flatMap_append, List.append_assoc]
  rfl

end Update

/-- A row that is written is bound as it is exactly if no array in it goes to a column that would
keep it. Then an insert has one placeholder for each column that it lists, and its values for
parameters; and an update has one for each assignment, in front of what the condition comes to on
its own, whose parameters are the values of its operands. -/
theorem bound_once_iff (naming : TableNaming) (table : String) (schema : TableSchema) (row : Row) :
    (∀ now prepared, schema.prepareInsert now row = .ok prepared →
      let s := insertStatement naming table prepared
      (s.expand = s ↔ schema.EncodesArrays row) ∧
      ((unquotedChars s.expand.sql.toList).count '?' = prepared.size ∧
        s.expand.params = prepared.entries.map Prod.snd ↔ schema.EncodesArrays row)) ∧
    ∀ prepared c, schema.prepareUpdate row = .ok prepared → c.WellShaped → c.hasField = true →
      let clause := (c.compile (some (naming.physical table))).statement.expand
      ∃ s, updateStatement naming table prepared c = .ok s ∧
        (s.expand.sql = "UPDATE " ++ naming.quoted table ++ " SET " ++
            commaSeparated (prepared.names.map (quoteIdent · ++ " = ?")) ++ " WHERE " ++
              clause.sql ∧
          s.expand.params = prepared.entries.map Prod.snd ++ clause.params
            ↔ schema.EncodesArrays row) ∧
        clause.params = c.operands.flatMap Operand.values := by
  constructor
  · intro now prepared hprepared s
    rw [← TableSchema.noArray_prepareInsert_iff hprepared]
    have hparams := params_expand_insert naming table prepared
    have hnoArray : s.expand.params = prepared.entries.map Prod.snd →
        ∀ v ∈ prepared.entries.map Prod.snd, v.isArray = false :=
      fun hsame => flatMap_spread_eq_self_iff.mp (hparams.symm.trans hsame)
    have hsame := expand_insert naming table prepared
    refine ⟨⟨fun h => hnoArray (congrArg Statement.params h), hsame⟩, fun h => hnoArray h.2, ?_⟩
    intro h
    rw [hsame h]
    exact ⟨count_insert naming table prepared, rfl⟩
  · intro prepared c hprepared hc hfield clause
    rw [← TableSchema.noArray_prepareUpdate_iff hprepared]
    obtain ⟨s, hs⟩ := exists_updateStatement naming table prepared hfield
    have hparams := params_expand_update hc hs
    refine ⟨s, hs, ⟨fun h => ?_, fun h => ?_⟩, Condition.params_expand hc _⟩
    · exact flatMap_spread_eq_self_iff.mp (List.append_cancel_right (hparams.symm.trans h.2))
    · refine ⟨sql_expand_update hc hfield hs h, hparams.trans ?_⟩
      rw [flatMap_spread_of_noArray h]

/-- Notes with a name and a list of tags. -/
def taggedNotes : TableSchema := .ofList [("name", .string 10), ("tags", .array)]

def taggedNote : Row := .ofList [("tags", .arr [.str "a", .str "?"]), ("name", .str "x")]

/-- The tags are written as one text, and only the list of the condition is taken apart. -/
theorem bound_once_taggedNote :
    let c : Condition := ⟨[.field "id" .isIn (.list [.str "1", .str "2"])]⟩
    taggedNotes.EncodesArrays taggedNote ∧ c.WellShaped ∧ c.hasField = true ∧
      (∃ prepared, taggedNotes.prepareInsert "" taggedNote = .ok prepared ∧
        (insertStatement {} "t" prepared).expand = insertStatement {} "t" prepared ∧
        (insertStatement {} "t" prepared).expand.params = [.str "x", .str "[\"a\",\"?\"]"]) ∧
      ∃ prepared s, taggedNotes.prepareUpdate taggedNote = .ok prepared ∧
        updateStatement {} "t" prepared c = .ok s ∧
        s.expand.params = [.str "[\"a\",\"?\"]", .str "x", .str "1", .str "2"] := by
  intro c
  have hprepared : taggedNotes.prepareInsert "" taggedNote = .ok _ := rfl
  have hencodes : taggedNotes.EncodesArrays taggedNote :=
    (TableSchema.noArray_prepareInsert_iff hprepared).mp (by decide)
  obtain ⟨hinsert, hupdate⟩ := bound_once_iff {} "t" taggedNotes taggedNote
  refine ⟨hencodes, rfl, rfl, ⟨_, rfl, ?_, ?_⟩, ?_⟩
  · exact (hinsert "" _ rfl).1.mpr hencodes
  · rw [((hinsert "" _ rfl).2.mpr hencodes).2]
    rfl
  · obtain ⟨s, hs, hiff, hclause⟩ := hupdate _ c rfl rfl rfl
    refine ⟨_, s, rfl, hs, ?_⟩
    rw [(hiff.mpr hencodes).2, hclause]
    rfl

/-- A list of names in a column that holds one: each of them takes a placeholder of its own. -/
theorem bound_twice_names :
    let schema : TableSchema := .ofList [("name", .string 10)]
    let row : Row := .ofList [("name", .arr [.str "a", .str "b"])]
    let c : Condition := ⟨[.field "id" .equal (.scalar (.bool true))]⟩
    schema.prepareInsert "" row = .ok row ∧ row.size = 1 ∧
      (insertStatement {} "t" row).expand.sql =
        "INSERT INTO \x60t\x60 (\x60name\x60) VALUES (?, ?)" ∧
      (insertStatement {} "t" row).expand.params = [.str "a", .str "b"] ∧
      schema.prepareUpdate row = .ok row ∧ c.WellShaped ∧ c.hasField = true ∧
      ∃ s, updateStatement {} "t" row c = .ok s ∧
        s.expand.sql =
          "UPDATE \x60t\x60 SET \x60name\x60 = ?, ? WHERE \x60t\x60.\x60id\x60 = ?" ∧
        s.expand.params = [.str "a", .str "b", .bool true] := by
  intro schema row c
  have hshaped : c.WellShaped := rfl
  have hupdate : updateStatement {} "t" row c = .ok _ := rfl
  refine ⟨rfl, rfl, by decide, ?_, rfl, hshaped, rfl, _, hupdate, by decide, ?_⟩
  · rw [params_expand_insert]
    rfl
  · rw [params_expand_update hshaped hupdate, Condition.params_expand hshaped]
    rfl

end ContentTables
