import ContentTables.Proofs.ContentType.Moving
import ContentTables.Proofs.Schema.Differences

/-!
# Fields that a caller brings

A caller's fields may have the names of columns that a content table has anyway. A column of a flag
takes the place of such a field, a stamp leaves the field as it is.

* `OrderedMap.entries_insertAll_of_nodup` : new values in their places, then the new names;
* `TableSchema.KeyedBy`, `KeyedBy.insert`, `KeyedBy.insertAll` : sound columns of which only the key
  may be primary; each column that is put there keeps it so, and such a schema is valid;
* `TypeKind.stamps`, `TypeDescriptor.flagColumns` : the columns besides the key and the fields;
* `entries_contentTable`, `get?_stamp` : the columns of a content table in order, and its stamps;
* `TypeDescriptor.compose_of_goodFields` : where no filter interferes, the tables of a type with
  good fields are composed and valid.
-/

namespace ContentTables

/-! ## Putting many columns -/

namespace OrderedMap

variable {α : Type}

theorem entries_insert (m : OrderedMap α) (name : String) (value : α) :
    (m.insert name value).entries =
      if m.contains name then m.entries.map fun e => (e.1, if e.1 = name then value else e.2)
      else m.entries ++ [(name, value)] := by
  split
  · rename_i h
    exact putEntry_of_mem value m.distinct (contains_iff.mp h)
  · rename_i h
    exact putEntry_of_fresh (mt contains_iff.mpr h)

theorem contains_insert (m : OrderedMap α) (name key : String) (value : α) :
    (m.insert name value).contains key = (decide (key = name) || m.contains key) := by
  unfold contains
  rw [get?_insert]
  split <;> simp [*]

/-- Names that are there keep their places and take the new values, the others go last. -/
theorem entries_insertAll_of_nodup (m : OrderedMap α) {pairs : List (String × α)}
    (h : (namesOf pairs).Nodup) : (m.insertAll pairs).entries =
      (m.entries.map fun e => (e.1, (pairs.lookup e.1).getD e.2)) ++
        pairs.filter fun e => !m.contains e.1 := by
  induction pairs generalizing m with
  | nil => exact (List.map_id _).symm.trans (List.append_nil _).symm
  | cons first rest ih =>
    obtain ⟨name, value⟩ := first
    obtain ⟨hfresh, hrest⟩ := List.nodup_cons.mp h
    have hnone : rest.lookup name = none := by
      rw [← Option.not_isSome_iff_eq_none, lookup_isSome_iff]
      exact hfresh
    -- The rest does not mention the name, so the new ones among it are new beside it as well.
    have hothers : (rest.filter fun e => !(m.insert name value).contains e.1) =
        rest.filter fun e => !m.contains e.1 := by
      refine List.filter_congr fun e he => ?_
      have hmem : e.1 ∈ namesOf rest := List.mem_map_of_mem he
      have hne : e.1 ≠ name := fun h => hfresh (h ▸ hmem)
      rw [contains_insert, decide_eq_false hne, Bool.false_or]
    show ((m.insert name value).insertAll rest).entries = _
    rw [ih _ hrest, hothers, entries_insert, List.filter_cons]
    cases hcontains : m.contains name with
    | true =>
      rw [if_pos rfl, if_neg nofun, List.map_map]
      refine congrArg (· ++ _) (List.map_congr_left fun e _ => ?_)
      rw [Function.comp_apply, lookup_cons_eq]
      by_cases hname : e.1 = name
      · simp [hname, hnone]
      · simp [hname]
    | false =>
      have hkept :
          m.entries.map (fun e => (e.1, (List.lookup e.1 ((name, value) :: rest)).getD e.2)) =
            m.entries.map fun e => (e.1, (rest.lookup e.1).getD e.2) := by
        refine List.map_congr_left fun e he => ?_
        have hmem : m.contains e.1 = true := contains_iff.mpr (List.mem_map_of_mem he)
        have hne : e.1 ≠ name := fun h =>
          Bool.false_ne_true (hcontains.symm.trans (h ▸ hmem))
        rw [lookup_cons_eq, if_neg hne]
      rw [if_neg nofun, if_pos Bool.not_false, List.map_append, hkept, List.append_assoc]
      simp [hnone]

end OrderedMap

/-! ## Validity -/

namespace TableSchema

open OrderedMap

/-- Nothing is wrong with the column itself, and it is the key if it is primary. -/
def SoundColumn (key name : String) (c : Column) : Prop :=
  columnFault? name c = none ∧ (c.primary = true → name = key)

instance (key name : String) (c : Column) : Decidable (SoundColumn key name c) :=
  inferInstanceAs (Decidable (_ ∧ _))

def KeyedBy (key : String) (s : TableSchema) : Prop :=
  ∀ name c, s.get? name = some c → SoundColumn key name c

namespace KeyedBy

variable {key name : String} {c : Column} {s : TableSchema}

theorem insert (h : s.KeyedBy key) (hc : SoundColumn key name c) :
    KeyedBy key (s.insert name c) := by
  intro other c' hget
  rw [get?_insert] at hget
  split at hget
  · rename_i hsame
    obtain rfl := Option.some.inj hget
    exact hsame ▸ hc
  · exact h other c' hget

theorem insertAll (h : s.KeyedBy key) {pairs : List (String × Column)}
    (hpairs : ∀ e ∈ pairs, SoundColumn key e.1 e.2) : KeyedBy key (s.insertAll pairs) := by
  induction pairs generalizing s with
  | nil => exact h
  | cons e rest ih =>
    obtain ⟨hfirst, hrest⟩ := List.forall_mem_cons.mp hpairs
    exact ih (h.insert hfirst) hrest

/-- Names are not repeated, so there is one key. -/
theorem validate (h : s.KeyedBy key) : s.validate = .ok () := by
  have hsubset : s.namesWhere (·.primary) ⊆ [key] := by
    intro name hmem
    obtain ⟨c, hget, hprimary⟩ := mem_namesWhere.mp hmem
    exact List.mem_singleton.mpr ((h name c hget).2 hprimary)
  exact validate_eq_ok_iff.mpr (fault?_eq_none_iff.mpr
    ⟨((nodup_namesWhere s _).subperm hsubset).length_le, fun name c hget => (h name c hget).1⟩)

end KeyedBy

/-- Fields that may stand beside a key. -/
structure GoodFields (fields : TableSchema) : Prop where
  valid : fields.validate = .ok ()
  notPrimary : ∀ name c, fields.get? name = some c → c.primary = false
  noKey : "ID" ∉ fields.names

theorem GoodFields.sound {fields : TableSchema} (h : fields.GoodFields) (key : String) :
    ∀ e ∈ fields.entries, SoundColumn key e.1 e.2 := by
  intro e he
  have hget : fields.get? e.1 = some e.2 := get?_eq_some_iff.mpr he
  obtain ⟨_, hcolumns⟩ := fault?_eq_none_iff.mp (validate_eq_ok_iff.mp h.valid)
  exact ⟨hcolumns e.1 e.2 hget, fun hprimary => by simp [h.notPrimary e.1 e.2 hget] at hprimary⟩

theorem goodFields_defaultFields (kind : TypeKind) : (defaultFields kind).GoodFields := by
  have hcolumns : ∀ e ∈ (defaultFields kind).entries, e.2.primary = false := by
    cases kind <;> decide
  refine ⟨?_, fun name c hget => hcolumns (name, c) (get?_eq_some_iff.mp hget), ?_⟩
  · cases kind <;> decide
  · cases kind <;> decide

end TableSchema

/-! ## The columns of a content table -/

/-- The columns that a kind adds under names that are free. -/
def TypeKind.stamps : TypeKind → List (String × Column)
  | .content => [("created", .currentTimestamp), ("updated", .currentTimestamp)]
  | .group => []

namespace TypeDescriptor

open OrderedMap TableSchema

variable {d : TypeDescriptor}

/-- The columns that the flags ask for, under their names whatever was there. -/
def flagColumns (d : TypeDescriptor) : List (String × Column) :=
  (if d.hierarchical then [("parent", Column.int 20)] else []) ++
    if d.comments then [("comments", Column.choice ["open", "close", "disabled"] "open")] else []

/-- The caller's fields, or those of the kind. -/
def ownFields (d : TypeDescriptor) : TableSchema := d.fields.getD (defaultFields d.kind)

theorem nodup_flagColumns (d : TypeDescriptor) : (namesOf d.flagColumns).Nodup := by
  unfold flagColumns
  cases d.hierarchical <;> cases d.comments <;> decide

theorem sound_flagColumns (d : TypeDescriptor) :
    ∀ e ∈ d.flagColumns, SoundColumn "ID" e.1 e.2 := by
  unfold flagColumns
  cases d.hierarchical <;> cases d.comments <;> decide

theorem mem_stamps {kind : TypeKind} {name : String} (h : name ∈ namesOf kind.stamps) :
    name ∈ ["created", "updated"] := by
  cases kind with
  | content => exact h
  | group => exact nomatch h

/-- No flag asks for the key or for a stamp. -/
theorem lookup_flagColumns {name : String} (h : name ∈ ["ID", "created", "updated"]) :
    d.flagColumns.lookup name = none := by
  have hnone : ∀ name ∈ ["ID", "created", "updated"],
      (d.flagColumns.lookup name).isNone = true := by
    unfold flagColumns
    cases d.hierarchical <;> cases d.comments <;> decide
  exact Option.isNone_iff_eq_none.mp (hnone name h)

theorem ne_of_mem_flagColumns {e : String × Column} (h : e ∈ d.flagColumns) {name : String}
    (hname : name ∈ ["ID", "created", "updated"]) : e.1 ≠ name := by
  rintro rfl
  have hsome : (d.flagColumns.lookup e.1).isSome = true :=
    lookup_isSome_iff.mpr (List.mem_map_of_mem h)
  simp [lookup_flagColumns hname] at hsome

theorem withFlags_eq (d : TypeDescriptor) (s : TableSchema) :
    withComments d.comments (withParent d.hierarchical s) = s.insertAll d.flagColumns := by
  unfold flagColumns
  cases d.hierarchical <;> cases d.comments <;> rfl

/-- The key, and the fields behind it. -/
def keyedFields (d : TypeDescriptor) : TableSchema :=
  (OrderedMap.ofList [("ID", contentKey)]).insertAll d.ownFields.entries

theorem contentTable_eq (d : TypeDescriptor) :
    contentTable d = (withStamps d.kind d.keyedFields).insertAll d.flagColumns :=
  withFlags_eq d _

/-! ### By name -/

theorem get?_withDefaultColumn (s : TableSchema) (name key : String) (c : Column) :
    (withDefaultColumn s name c).get? key =
      (s.get? key).or (if key = name then some c else none) := by
  unfold withDefaultColumn
  split
  · rename_i hthere
    split
    · rename_i hsame
      obtain ⟨c', hc'⟩ := Option.isSome_iff_exists.mp hthere
      rw [hsame, hc']
      rfl
    · exact Option.or_none.symm
  · rename_i hfree
    rw [get?_insert]
    split
    · rename_i hsame
      rw [hsame, Option.not_isSome_iff_eq_none.mp hfree]
      rfl
    · exact Option.or_none.symm

theorem get?_withStamps (kind : TypeKind) (s : TableSchema) (key : String) :
    (withStamps kind s).get? key = (s.get? key).or (kind.stamps.lookup key) := by
  cases kind with
  | group => exact Option.or_none.symm
  | content =>
    show (withDefaultColumn (withDefaultColumn s _ _) _ _).get? key = _
    rw [get?_withDefaultColumn, get?_withDefaultColumn, Option.or_assoc, TypeKind.stamps,
      lookup_cons_eq, lookup_cons_eq, List.lookup_nil]
    congr 1
    split <;> rfl

theorem get?_keyedFields (d : TypeDescriptor) {name : String} (hname : name ≠ "ID") :
    d.keyedFields.get? name = d.ownFields.get? name := by
  have hkey : (OrderedMap.ofList [("ID", contentKey)]).get? name = none :=
    (lookup_cons_eq ..).trans (if_neg hname)
  rw [keyedFields, get?_insertAll, hkey, Option.or_none]

/-- A stamp is the field of its name, or it is there for the kind. -/
theorem get?_stamp (d : TypeDescriptor) {name : String} (hname : name ∈ ["created", "updated"]) :
    (contentTable d).get? name = (d.ownFields.get? name).or (d.kind.stamps.lookup name) := by
  have hne : name ≠ "ID" := fun hkey => absurd (hkey ▸ hname) (by decide)
  have hflags : (OrderedMap.mk d.flagColumns d.nodup_flagColumns).get? name = none :=
    lookup_flagColumns (List.mem_cons_of_mem _ hname)
  rw [contentTable_eq, get?_insertAll _ ⟨d.flagColumns, d.nodup_flagColumns⟩, hflags,
    get?_withStamps, d.get?_keyedFields hne, Option.none_or]

/-- Before the flags are looked at, their columns are there only as fields. -/
theorem contains_stampedFields {e : String × Column} (h : e ∈ d.flagColumns) :
    (withStamps d.kind d.keyedFields).contains e.1 = d.ownFields.contains e.1 := by
  have hstamp : d.kind.stamps.lookup e.1 = none := by
    rw [← Option.not_isSome_iff_eq_none, lookup_isSome_iff]
    exact fun hmem => ne_of_mem_flagColumns h (List.mem_cons_of_mem _ (mem_stamps hmem)) rfl
  unfold contains
  rw [get?_withStamps, d.get?_keyedFields (ne_of_mem_flagColumns h List.mem_cons_self), hstamp,
    Option.or_none]

/-! ### In order -/

theorem entries_withStamps (kind : TypeKind) (s : TableSchema) :
    (withStamps kind s).entries = s.entries ++ kind.stamps.filter fun e => !s.contains e.1 := by
  cases kind with
  | group => exact (List.append_nil _).symm
  | content =>
    unfold withStamps withDefaultColumn
    cases hcreated : s.contains "created" <;> cases hupdated : s.contains "updated" <;>
      simp [TypeKind.stamps, hcreated, hupdated, contains_insert, entries_insert]

theorem entries_stampedFields (h : "ID" ∉ d.ownFields.names) :
    (withStamps d.kind d.keyedFields).entries = ("ID", contentKey) :: d.ownFields.entries ++
      d.kind.stamps.filter fun e => !d.ownFields.contains e.1 := by
  have hkeyed : d.keyedFields.entries = ("ID", contentKey) :: d.ownFields.entries :=
    entries_insertAll (OrderedMap.ofList [("ID", contentKey)])
      (List.nodup_cons.mpr ⟨h, d.ownFields.distinct⟩)
  rw [entries_withStamps, hkeyed]
  refine congrArg (_ ++ ·) (List.filter_congr fun e he => ?_)
  have hname := mem_stamps (List.mem_map_of_mem he)
  have hne : e.1 ≠ "ID" := fun hkey => absurd (hkey ▸ hname) (by decide)
  rw [contains, d.get?_keyedFields hne, contains]

/-- The key, the fields with the columns of the flags in their places, and what is missing then. -/
theorem entries_contentTable (h : "ID" ∉ d.ownFields.names) : (contentTable d).entries =
    ("ID", contentKey) ::
      (d.ownFields.entries.map fun e => (e.1, (d.flagColumns.lookup e.1).getD e.2)) ++
      (d.kind.stamps ++ d.flagColumns).filter fun e => !d.ownFields.contains e.1 := by
  have hflags : (d.flagColumns.filter fun e => !(withStamps d.kind d.keyedFields).contains e.1) =
      d.flagColumns.filter fun e => !d.ownFields.contains e.1 :=
    List.filter_congr fun e he => congrArg (!·) (contains_stampedFields he)
  have hstamps : ∀ e ∈ d.kind.stamps.filter (fun e => !d.ownFields.contains e.1),
      (e.1, (d.flagColumns.lookup e.1).getD e.2) = e := by
    intro e he
    have hname := mem_stamps (List.mem_map_of_mem (List.mem_filter.mp he).1)
    rw [lookup_flagColumns (List.mem_cons_of_mem _ hname)]
    rfl
  rw [contentTable_eq, entries_insertAll_of_nodup _ d.nodup_flagColumns, hflags,
    entries_stampedFields h, List.map_append, List.map_cons, lookup_flagColumns (by decide),
    List.map_congr_left hstamps, List.map_id', List.filter_append, List.append_assoc]
  rfl

/-! ### Composed -/

theorem keyedBy_withDefaultColumn {key name : String} {c : Column} {s : TableSchema}
    (h : KeyedBy key s) (hc : SoundColumn key name c) :
    KeyedBy key (withDefaultColumn s name c) := by
  unfold withDefaultColumn
  split
  · exact h
  · exact h.insert hc

theorem keyedBy_contentTable (h : d.ownFields.GoodFields) : KeyedBy "ID" (contentTable d) := by
  have hempty : KeyedBy "ID" ∅ := fun name c hget =>
    nomatch (get?_empty name).symm.trans hget
  have hsound : SoundColumn "ID" "ID" contentKey := by decide
  have hkey : KeyedBy "ID" (OrderedMap.ofList [("ID", contentKey)]) := hempty.insert hsound
  have hfields : KeyedBy "ID" d.keyedFields := hkey.insertAll (h.sound "ID")
  have hstamps : KeyedBy "ID" (withStamps d.kind d.keyedFields) := by
    cases d.kind with
    | group => exact hfields
    | content =>
      exact keyedBy_withDefaultColumn (keyedBy_withDefaultColumn hfields (by decide)) (by decide)
  rw [contentTable_eq]
  exact hstamps.insertAll d.sound_flagColumns

theorem validate_derivedTables (h : d.ownFields.GoodFields) :
    ∀ e ∈ d.derivedTables, e.2.validate = .ok () := by
  have hmeta : metaTable.validate = .ok () := by decide
  have hcomments : commentsTable.validate = .ok () := by decide
  have hcontent : (contentTable d).validate = .ok () := (keyedBy_contentTable h).validate
  unfold derivedTables
  refine List.forall_mem_cons.mpr ⟨hcontent, List.forall_mem_cons.mpr ⟨hmeta, ?_⟩⟩
  split
  · exact List.forall_mem_singleton.mpr hcomments
  · exact nofun

variable {filters : TableFilters}

/-- The derived tables as they are. -/
def unfiltered (d : TypeDescriptor) (derived : List (TableRole × TableSchema)) :
    List ComposedTable :=
  derived.map fun e => ⟨e.1.tableName d.slug, e.1, e.2⟩

theorem apply_of_noHandlers (h : filters.handlers = []) (context : TableContext)
    (schema : TableSchema) : filters.apply context schema = .ok schema := by
  unfold FilterPipeline.apply FilterPipeline.trace
  rw [h]
  rfl

theorem composeAll_of_noHandlers (h : filters.handlers = [])
    (derived : List (TableRole × TableSchema)) :
    d.composeAll filters derived = .ok (d.unfiltered derived) := by
  induction derived with
  | nil => rfl
  | cons e rest ih =>
    unfold composeAll composeTable
    simp only [apply_of_noHandlers h, ih]
    rfl

theorem compose_of_noHandlers (h : filters.handlers = []) (hslug : isBlankText d.slug = false) :
    d.compose filters = .ok (d.unfiltered d.derivedTables) := by
  unfold compose
  rw [hslug, if_neg nofun, composeAll_of_noHandlers h]

theorem nodup_unfiltered (d : TypeDescriptor) :
    ((d.unfiltered d.derivedTables).map (·.table)).Nodup := by
  have hnames : (d.unfiltered d.derivedTables).map (·.table) =
      (d.derivedTables.map Prod.fst).map fun role => role.tableName d.slug := by
    rw [unfiltered, List.map_map, List.map_map]
    rfl
  rw [hnames]
  exact d.nodup_roles.map fun _ _ => TableRole.eq_of_tableName

theorem validate_unfiltered (h : d.ownFields.GoodFields) :
    ∀ t ∈ d.unfiltered d.derivedTables, t.schema.validate = .ok () := by
  intro t ht
  obtain ⟨e, he, rfl⟩ := List.mem_map.mp ht
  exact validate_derivedTables h e he

theorem composable_of_goodFields (hfilters : filters.handlers = [])
    (hslug : isBlankText d.slug = false) (h : d.ownFields.GoodFields) : d.Composable filters :=
  ⟨hslug, fun e he => ⟨e.2, apply_of_noHandlers hfilters _ e.2, validate_derivedTables h e he⟩⟩

theorem recordable_of_derivedTables (hfilters : filters.handlers = [])
    (hslug : isBlankText d.slug = false) (h : ∀ e ∈ d.derivedTables, e.2.Recordable) :
    d.Recordable filters := by
  intro tables hcomposed t ht
  obtain rfl := Except.ok.inj ((compose_of_noHandlers hfilters hslug).symm.trans hcomposed)
  obtain ⟨e, he, rfl⟩ := List.mem_map.mp ht
  exact h e he

theorem goodFields_ownFields (h : ∀ fields, d.fields = some fields → fields.GoodFields) :
    d.ownFields.GoodFields := by
  unfold ownFields
  cases hfields : d.fields with
  | none => exact goodFields_defaultFields d.kind
  | some fields => exact h fields hfields

/-- Where no filter interferes, the tables of a type with good fields are composed, under different
names, and valid. The content table has the key first, the fields in their order, with the columns
of the flags in place of fields of their names, and then what is missing; each stamp is as the
caller defined it, or the current time for a content type. -/
theorem compose_of_goodFields (hfilters : filters.handlers = [])
    (hslug : isBlankText d.slug = false)
    (hfields : ∀ fields, d.fields = some fields → fields.GoodFields) :
    ∃ content others, d.compose filters = .ok (content :: others) ∧
      ((content :: others).map (·.table)).Nodup ∧
      (∀ t ∈ content :: others, t.schema.validate = .ok ()) ∧
      content.role = .content ∧ contentKey.primary = true ∧ contentKey.autoIncrement = true ∧
      content.schema.entries = ("ID", contentKey) ::
        (d.ownFields.entries.map fun e => (e.1, (d.flagColumns.lookup e.1).getD e.2)) ++
        ((d.kind.stamps ++ d.flagColumns).filter fun e => !d.ownFields.contains e.1) ∧
      ∀ name ∈ ["created", "updated"], content.schema.get? name = (d.ownFields.get? name).or
        (if d.kind = .content then some .currentTimestamp else none) := by
  have hgood := goodFields_ownFields hfields
  have hcomposed := compose_of_noHandlers hfilters hslug
  have hfirst : d.unfiltered d.derivedTables =
      ⟨TableRole.content.tableName d.slug, .content, contentTable d⟩ ::
        d.unfiltered d.derivedTables.tail := rfl
  have hnames := d.nodup_unfiltered
  have hvalid := validate_unfiltered hgood
  rw [hfirst] at hcomposed hnames hvalid
  refine ⟨_, _, hcomposed, hnames, hvalid, rfl, rfl, rfl, entries_contentTable hgood.noKey,
    fun name hname => ?_⟩
  have hstamp : d.kind.stamps.lookup name =
      if d.kind = .content then some .currentTimestamp else none := by
    obtain rfl | rfl : name = "created" ∨ name = "updated" := by simpa using hname
    · cases d.kind <;> rfl
    · cases d.kind <;> rfl
  exact hstamp ▸ d.get?_stamp hname

/-- Fields of which one is a stamp, and two are in the way of the flags. -/
def collidingFields : TableSchema := .ofList [
  ("headline", { Column.string 80 with required := true }),
  ("comments", .bool),
  ("created", .int 10),
  ("parent", .string 40)]

def collidingType : TypeDescriptor :=
  { slug := "page", hierarchical := true, comments := true, fields := some collidingFields }

theorem compose_of_goodFields_colliding : ∃ content others,
    collidingType.compose { hook := tableSchemaHook } = .ok (content :: others) ∧
    ((content :: others).map (·.table)).Nodup ∧
    (∀ t ∈ content :: others, t.schema.validate = .ok ()) ∧
    content.schema.names = ["ID", "headline", "comments", "created", "parent", "updated"] ∧
    content.schema.get? "created" = some (.int 10) ∧
    content.schema.get? "updated" = some .currentTimestamp := by
  have hgood : collidingFields.GoodFields := by
    have hcolumns : ∀ e ∈ collidingFields.entries, e.2.primary = false := by decide
    exact ⟨by decide, fun name c hget => hcolumns (name, c) (get?_eq_some_iff.mp hget), by decide⟩
  have hfilters : ({ hook := tableSchemaHook } : TableFilters).handlers = [] := rfl
  have hslug : isBlankText collidingType.slug = false := by decide
  have hfields : ∀ fields, collidingType.fields = some fields → fields.GoodFields := by
    rintro _ ⟨⟩
    exact hgood
  obtain ⟨content, others, hcomposed, hnames, hvalid, _, _, _, hentries, hstamps⟩ :=
    compose_of_goodFields hfilters hslug hfields
  refine ⟨content, others, hcomposed, hnames, hvalid, ?_, ?_, ?_⟩
  · rw [names, hentries]
    decide
  · exact (hstamps "created" (by decide)).trans rfl
  · exact (hstamps "updated" (by decide)).trans rfl

end TypeDescriptor

end ContentTables
