import ContentTables.Proofs.Schema.Recordable
import ContentTables.Store.Records

/-!
# What a record holds

* `Records.decode_encode` : the schema in a record is the one that its text says;
* `Records.Holds` : a record with the content of a schema;
* `Records.HoldsWritten` : a record with that content or with the content that its text has;
* `Records.distinct_of_decode`, `Records.holdsWritten_encode` : what is read from a record repeats no
  name, so that it is written again with the content that it had;
* `Records.WrittenFrom` : a record with the text of a schema, which cannot always be read;
* `Records.Rewritable` : a record that can be read, written again, and read again;
* `Records.numbersTable` : a schema that reads back as itself.
-/

namespace ContentTables.Records

theorem decode_encode (schema : TableSchema) :
    decode (encode schema) = (TableSchema.parse? schema.text).elim (.error .badForm) .ok := by
  have hget : (encode schema).get? "columns" = some (.str schema.text) := rfl
  unfold decode
  rw [hget]

theorem parse?_of_decode_encode {schema schema' : TableSchema}
    (h : decode (encode schema) = .ok schema') : TableSchema.parse? schema.text = some schema' := by
  rw [decode_encode] at h
  cases hparsed : TableSchema.parse? schema.text with
  | none =>
    rw [hparsed] at h
    exact nomatch h
  | some found =>
    rw [hparsed] at h
    exact congrArg some (Except.ok.inj h)

theorem decode_encode_of_parse? {schema written : TableSchema}
    (h : TableSchema.parse? schema.text = some written) : decode (encode schema) = .ok written := by
  rw [decode_encode, h]
  rfl

theorem decode_encode_of_stable {schema : TableSchema} (h : schema.Stable) :
    decode (encode schema) = .ok schema := decode_encode_of_parse? h

theorem distinct_of_decode {record : Row} {schema : TableSchema}
    (h : decode record = .ok schema) : schema.Distinct := by
  have hread : ∀ {o : Option TableSchema},
      o.elim (Except.error StoreError.badForm) Except.ok = Except.ok schema → o = some schema := by
    intro o ho
    cases o with
    | none => exact nomatch ho
    | some s => exact congrArg some (Except.ok.inj ho)
  have hempty : (∅ : TableSchema).Distinct := by
    intro name c hget
    rw [OrderedMap.get?_empty] at hget
    exact nomatch hget
  unfold decode at h
  split at h
  · obtain ⟨d, _, hd⟩ := Option.bind_eq_some_iff.mp (hread h)
    exact TableSchema.distinct_of_read? hd
  · cases h
    exact hempty
  · cases h
    exact hempty
  · exact TableSchema.distinct_of_read? (hread h)

/-- A record holds one schema. -/
theorem schema_unique {record : Option Row} {row row' : Row} {schema schema' : TableSchema}
    (hrow : record = some row) (h : decode row = .ok schema) (hrow' : record = some row')
    (h' : decode row' = .ok schema') : schema = schema' := by
  obtain rfl := Option.some.inj (hrow.symm.trans hrow')
  exact Except.ok.inj (h.symm.trans h')

/-- The record is there, and its schema has that content. -/
def Holds (record : Option Row) (desired : TableSchema) : Prop :=
  ∃ row schema, record = some row ∧ decode row = .ok schema ∧ schema.sameContent desired = true

theorem holds_iff {record : Option Row} {row : Row} {stored desired : TableSchema}
    (hrow : record = some row) (h : decode row = .ok stored) :
    Holds record desired ↔ stored.sameContent desired = true := by
  constructor
  · rintro ⟨row', stored', hrow', h', hsame⟩
    obtain rfl := schema_unique hrow h hrow' h'
    exact hsame
  · exact fun hsame => ⟨row, stored, hrow, h, hsame⟩

/-- The record is there, and its schema has that content, or the content that is read back from the
text of the desired schema. -/
def HoldsWritten (record : Option Row) (desired : TableSchema) : Prop :=
  ∃ row stored, record = some row ∧ decode row = .ok stored ∧
    (stored.sameContent desired = true ∨ ∃ written, TableSchema.parse? desired.text = some written ∧
      stored.sameContent written = true)

theorem Holds.written {record : Option Row} {desired : TableSchema} (h : Holds record desired) :
    HoldsWritten record desired := by
  obtain ⟨row, stored, hrow, hdecoded, hsame⟩ := h
  exact ⟨row, stored, hrow, hdecoded, Or.inl hsame⟩

theorem HoldsWritten.holds {record : Option Row} {desired : TableSchema}
    (h : HoldsWritten record desired) (hstable : desired.Stable) : Holds record desired := by
  obtain ⟨row, stored, hrow, hdecoded, hsame | ⟨written, hparsed, hsame⟩⟩ := h
  · exact ⟨row, stored, hrow, hdecoded, hsame⟩
  · obtain rfl := Option.some.inj (hparsed.symm.trans hstable)
    exact ⟨row, stored, hrow, hdecoded, hsame⟩

/-- A schema without repeated names that has the content of a desired one. -/
theorem holdsWritten_encode {schema desired : TableSchema} (hschema : schema.Distinct)
    (hdesired : desired.Recordable) (h : schema.sameContent desired = true) :
    HoldsWritten (some (encode schema)) desired := by
  obtain ⟨written, hwritten⟩ := hdesired.exists_parse
  obtain ⟨stored, hstored, hsame⟩ :=
    TableSchema.parse?_of_sameContent hschema hdesired.distinct h hwritten
  exact ⟨encode schema, stored, rfl, decode_encode_of_parse? hstored,
    Or.inr ⟨written, hwritten, hsame⟩⟩

/-- The record has the text of the schema, whether that can be read or not. -/
def WrittenFrom (record : Option Row) (schema : TableSchema) : Prop := record = some (encode schema)

namespace WrittenFrom

variable {record : Option Row} {schema : TableSchema}

theorem holdsWritten (h : WrittenFrom record schema) (hschema : schema.Recordable) :
    HoldsWritten record schema := by
  rw [h]
  exact holdsWritten_encode hschema.distinct hschema (TableSchema.sameContent_refl hschema.distinct)

/-- Where it holds the schema, each column has been read back as it was. -/
theorem readBack_of_holds (h : WrittenFrom record schema) (hholds : Holds record schema)
    {name : String} {c : Column} (hget : schema.get? name = some c) :
    ∃ c', c.readBack? = some c' ∧ c'.sameDefinition c = true := by
  obtain ⟨row, stored, hrow, hdecoded, hsame⟩ := hholds
  obtain rfl := Option.some.inj (hrow.symm.trans h)
  have hread := TableSchema.parse?_text_eq_some_iff.mp (parse?_of_decode_encode hdecoded)
  obtain ⟨c', hget', hback⟩ := hread.lookup hget
  obtain ⟨d, hd, hdefinition⟩ := TableSchema.exists_of_sameContent hsame hget'
  obtain rfl := Option.some.inj (hget.symm.trans hd)
  exact ⟨c', hback, hdefinition⟩

end WrittenFrom

/-- The schema in the record can be read, written again, and read again. -/
def Rewritable (record : Option Row) : Prop :=
  ∃ row stored again, record = some row ∧ decode row = .ok stored ∧
    decode (encode stored) = .ok again

theorem HoldsWritten.rewritable {record : Option Row} {desired : TableSchema}
    (h : HoldsWritten record desired) (hdesired : desired.Recordable) : Rewritable record := by
  obtain ⟨row, stored, hrow, hdecoded, hsame⟩ := h
  have hreread : ∀ t : TableSchema, t.Recordable → stored.sameContent t = true →
      ∃ again, decode (encode stored) = .ok again := by
    intro t ht hsame
    obtain ⟨t', ht'⟩ := ht.exists_parse
    obtain ⟨again, hagain, _⟩ :=
      TableSchema.parse?_of_sameContent (distinct_of_decode hdecoded) ht.distinct hsame ht'
    exact ⟨again, decode_encode_of_parse? hagain⟩
  rcases hsame with hsame | ⟨written, hwritten, hsame⟩
  · obtain ⟨again, hagain⟩ := hreread desired hdesired hsame
    exact ⟨row, stored, again, hrow, hdecoded, hagain⟩
  · obtain ⟨again, hagain⟩ := hreread written (TableSchema.recordable_of_parse? hwritten) hsame
    exact ⟨row, stored, again, hrow, hdecoded, hagain⟩

/-! ## A schema in use -/

/-- An integer column. -/
def numbersTable : TableSchema := .ofList [("a", { kind := .int })]

theorem stable_numbersTable : numbersTable.Stable :=
  TableSchema.stable_ofList fun e he => by
    cases List.mem_singleton.mp he
    rfl

end ContentTables.Records
