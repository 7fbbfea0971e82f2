import ContentTables.Proofs.Schema.Merging
import ContentTables.Sql.Definition

/-!
# Altering a live table

A table in the database is a column clause for every column name. An `ALTER TABLE` takes effect
clause by clause, and as a whole it fails when one clause does.

* `LiveTable`, `TableSchema.live` : a table in the database, and the one that a schema describes;
* `LiveTable.alter?`, `LiveTable.alterAll?` : what a clause does, as its text says, and what all
  clauses do from left to right;
* `alter?_sql` : reading the text of a step gives back the step (`LiveTable.step?`);
* `live_of_run_entries`, `live_of_run_dropped`, `live_of_run` : what the parts of a statement leave,
  and what the whole does;
* `SchemaDiff.Settled` : no added column is dropped, or changed to another clause, by the same
  difference;
* `altered_eq_merge_iff` : this is what it takes for the table to become the merged schema.
-/

namespace ContentTables

open Definition

namespace OrderedMap

variable {α : Type}

theorem replaceAll_eq_self {m : OrderedMap α} {pairs : List (String × α)}
    (h : ∀ name ∈ namesOf pairs, m.contains name = false) : m.replaceAll pairs = m := by
  induction pairs with
  | nil => rfl
  | cons p rest ih =>
    obtain ⟨hfirst, hrest⟩ := List.forall_mem_cons.mp h
    show (m.replace p.1 p.2).replaceAll rest = m
    rw [replace, hfirst]
    exact ih hrest

theorem erase_eq_self {m : OrderedMap α} {name : String} (h : m.contains name = false) :
    m.erase name = m := by
  apply OrderedMap.ext
  show dropEntry name m.entries = m.entries
  refine List.filter_eq_self.mpr fun e he => ?_
  have hin : m.contains e.1 = true := contains_iff.mpr (List.mem_map_of_mem he)
  simp only [bne_iff_ne, ne_eq]
  rintro rfl
  exact absurd (hin.symm.trans h) nofun

theorem eraseAll_eq_self {m : OrderedMap α} {names : List String}
    (h : ∀ name ∈ names, m.contains name = false) : m.eraseAll names = m := by
  induction names with
  | nil => rfl
  | cons name rest ih =>
    obtain ⟨hfirst, hrest⟩ := List.forall_mem_cons.mp h
    show (m.erase name).eraseAll rest = m
    rw [erase_eq_self hfirst]
    exact ih hrest

end OrderedMap

/-! ## Reading clauses -/

/-- The characters of a quoted name up to its closing quote, and what follows the quote. -/
def nameBody? : List Char → Option (List Char × List Char)
  | '\x60' :: '\x60' :: cs => (nameBody? cs).map fun (name, rest) => ('\x60' :: name, rest)
  | '\x60' :: cs => some ([], cs)
  | c :: cs => (nameBody? cs).map fun (name, rest) => (c :: name, rest)
  | [] => none

/-- The quoted name that a text starts with, and what follows it. -/
def leadingName? : List Char → Option (String × List Char)
  | '\x60' :: cs => (nameBody? cs).map fun (name, rest) => (String.ofList name, rest)
  | _ => none

theorem nameBody?_doubled (name rest : List Char) (h : rest.head? ≠ some backtick) :
    nameBody? ((name.flatMap fun c => if c == backtick then [c, c] else [c]) ++ backtick :: rest) =
      some (name, rest) := by
  induction name with
  | nil =>
    cases rest with
    | nil => rfl
    | cons c cs =>
      have hc : c ≠ '\x60' := fun hc => h (hc ▸ rfl)
      show nameBody? ('\x60' :: c :: cs) = _
      rw [nameBody?.eq_2]
      rintro ds hds
      exact hc (List.cons.inj hds).1
  | cons c cs ih =>
    by_cases hc : c = backtick
    · have htwo : (if (c == backtick) = true then [c, c] else [c]) = ['\x60', '\x60'] := by
        subst hc
        rfl
      rw [List.flatMap_cons, htwo, List.append_assoc, List.cons_append, List.singleton_append,
        nameBody?, ih, hc]
      rfl
    · have hone : (if (c == backtick) = true then [c, c] else [c]) = [c] := by simp [hc]
      rw [List.flatMap_cons, hone, List.append_assoc, List.singleton_append, nameBody?.eq_3, ih]
      · rfl
      · exact fun _ h _ => hc h
      · exact hc

theorem leadingName?_quoteIdent (name : String) (rest : List Char) (h : rest.head? ≠ some backtick) :
    leadingName? ((quoteIdent name).toList ++ rest) = some (name, rest) := by
  have hbody := nameBody?_doubled name.toList rest h
  rw [quoteIdent, quotedBy, String.toList_ofList, List.cons_append, List.cons_append,
    List.append_assoc, List.singleton_append]
  show leadingName? ('\x60' :: _) = _
  rw [leadingName?, hbody, Option.map_some]
  simp only [String.ofList_toList]

/-! ## Live tables -/

/-- The clause of each column. -/
abbrev LiveTable := String → Option String

def TableSchema.live (s : TableSchema) : LiveTable :=
  fun name => (s.get? name).map (columnClause name)

namespace LiveTable

def set (t : LiveTable) (name : String) (clause : Option String) : LiveTable :=
  fun key => if key = name then clause else t key

/-- A column that is added must not be there, one that is changed or dropped must. A column that is
changed takes the name that its new clause begins with. -/
def alter? (t : LiveTable) (clause : String) : Option LiveTable :=
  match "ADD COLUMN ".toList.isPrefixOf? clause.toList,
    "CHANGE COLUMN ".toList.isPrefixOf? clause.toList,
    "DROP COLUMN ".toList.isPrefixOf? clause.toList with
  | some column, _, _ => do
    let (name, _) ← leadingName? column
    if (t name).isSome then none else some (t.set name (String.ofList column))
  | none, some rest, _ => do
    let (previous, column) ← leadingName? rest
    let (name, _) ← leadingName? (column.drop 1)
    if (t previous).isNone ∨ ((t.set previous none) name).isSome then none
    else some ((t.set previous none).set name (String.ofList (column.drop 1)))
  | none, none, some rest => do
    let (name, _) ← leadingName? rest
    if (t name).isSome then some (t.set name none) else none
  | none, none, none => none

def alterAll? (t : LiveTable) (clauses : List String) : Option LiveTable :=
  clauses.foldlM alter? t

/-- What a step does, without its text. -/
def step? (t : LiveTable) : Alteration → Option LiveTable
  | .add name c => if (t name).isSome then none else some (t.set name (columnClause name c))
  | .change name c => if (t name).isSome then some (t.set name (columnClause name c)) else none
  | .drop name => if (t name).isSome then some (t.set name none) else none

def run? (t : LiveTable) (steps : List Alteration) : Option LiveTable :=
  steps.foldlM step? t

theorem set_set (t : LiveTable) (name : String) (clause clause' : Option String) :
    (t.set name clause).set name clause' = t.set name clause' := by
  funext key
  unfold set
  split
  · rfl
  · rfl

end LiveTable

theorem leadingName?_columnClause (name : String) (c : Column) :
    ∃ rest, leadingName? (columnClause name c).toList = some (name, rest) := by
  have hstart : ∃ rest, (columnClause name c).toList = (quoteIdent name).toList ++ ' ' :: rest := by
    unfold columnClause
    simp only [List.cons_append, List.nil_append, String.intercalate_cons_cons,
      String.toList_append, List.append_assoc]
    exact ⟨_, rfl⟩
  obtain ⟨rest, hrest⟩ := hstart
  refine ⟨' ' :: rest, ?_⟩
  rw [hrest]
  exact leadingName?_quoteIdent name _ (by simp [backtick])

theorem isPrefixOf?_append (cs ds : List Char) : cs.isPrefixOf? (cs ++ ds) = some ds :=
  List.isPrefixOf?_eq_some_iff_append_eq.mpr rfl

/-! ## The text of a step says what the step does -/

section Steps
variable (t : LiveTable) (name : String) (c : Column)

theorem alter?_add : t.alter? (Alteration.add name c).sql = t.step? (.add name c) := by
  obtain ⟨rest, hname⟩ := leadingName?_columnClause name c
  have hsql : (Alteration.add name c).sql.toList =
      "ADD COLUMN ".toList ++ (columnClause name c).toList := String.toList_append
  have hadd : "ADD COLUMN ".toList.isPrefixOf? (Alteration.add name c).sql.toList =
      some (columnClause name c).toList := by
    rw [hsql]
    exact isPrefixOf?_append _ _
  simp only [LiveTable.alter?, hadd, hname, Option.bind_eq_bind, Option.bind_some,
    String.ofList_toList, LiveTable.step?]

theorem alter?_change : t.alter? (Alteration.change name c).sql = t.step? (.change name c) := by
  obtain ⟨rest, hname⟩ := leadingName?_columnClause name c
  have hsql : (Alteration.change name c).sql.toList = "CHANGE COLUMN ".toList ++
      ((quoteIdent name).toList ++ ' ' :: (columnClause name c).toList) := by
    show (("CHANGE COLUMN " ++ quoteIdent name ++ " ") ++ columnClause name c).toList = _
    rw [String.toList_append, String.toList_append, String.toList_append, List.append_assoc,
      List.append_assoc]
    rfl
  have hadd : "ADD COLUMN ".toList.isPrefixOf? (Alteration.change name c).sql.toList = none := by
    rw [hsql]
    rfl
  have hchange : "CHANGE COLUMN ".toList.isPrefixOf? (Alteration.change name c).sql.toList =
      some ((quoteIdent name).toList ++ ' ' :: (columnClause name c).toList) := by
    rw [hsql]
    exact isPrefixOf?_append _ _
  have hprevious := leadingName?_quoteIdent name (' ' :: (columnClause name c).toList)
    (by simp [backtick])
  have hfree : (t.set name none) name = none := if_pos rfl
  simp only [LiveTable.alter?, hadd, hchange, hprevious, Option.bind_eq_bind, Option.bind_some,
    List.drop_one, List.tail_cons, hname, String.ofList_toList, LiveTable.set_set, hfree,
    LiveTable.step?]
  cases t name with
  | none => rfl
  | some clause => rfl

theorem alter?_drop : t.alter? (Alteration.drop name).sql = t.step? (.drop name) := by
  have hsql : (Alteration.drop name).sql.toList = "DROP COLUMN ".toList ++
      ((quoteIdent name).toList ++ []) := by
    rw [List.append_nil]
    exact String.toList_append
  have hadd : "ADD COLUMN ".toList.isPrefixOf? (Alteration.drop name).sql.toList = none := by
    rw [hsql]
    rfl
  have hchange : "CHANGE COLUMN ".toList.isPrefixOf? (Alteration.drop name).sql.toList = none := by
    rw [hsql]
    rfl
  have hdrop : "DROP COLUMN ".toList.isPrefixOf? (Alteration.drop name).sql.toList =
      some ((quoteIdent name).toList ++ []) := by
    rw [hsql]
    exact isPrefixOf?_append _ _
  simp only [LiveTable.alter?, hadd, hchange, hdrop, leadingName?_quoteIdent name [] nofun,
    Option.bind_eq_bind, Option.bind_some, LiveTable.step?]

end Steps

theorem alter?_sql (t : LiveTable) (a : Alteration) : t.alter? a.sql = t.step? a := by
  cases a with
  | add name c => exact alter?_add t name c
  | change name c => exact alter?_change t name c
  | drop name => exact alter?_drop t name

/-! ## The three parts of a statement -/

section Parts
variable {t live : LiveTable}

theorem alterAll?_sql (t : LiveTable) (steps : List Alteration) :
    t.alterAll? (steps.map (·.sql)) = t.run? steps := by
  unfold LiveTable.alterAll? LiveTable.run?
  rw [List.foldlM_map]
  congr 1
  funext t a
  exact alter?_sql t a

theorem run?_cons {a : Alteration} {steps : List Alteration} (h : t.run? (a :: steps) = some live) :
    ∃ mid, t.step? a = some mid ∧ mid.run? steps = some live :=
  Option.bind_eq_some_iff.mp h

theorem run?_append {steps steps' : List Alteration} (h : t.run? (steps ++ steps') = some live) :
    ∃ mid, t.run? steps = some mid ∧ mid.run? steps' = some live := by
  unfold LiveTable.run? at h
  rw [List.foldlM_append] at h
  exact Option.bind_eq_some_iff.mp h

theorem step?_add {name : String} {c : Column} (h : t.step? (.add name c) = some live) :
    t name = none ∧ live = t.set name (columnClause name c) := by
  rw [LiveTable.step?, Option.ite_none_left_eq_some] at h
  exact ⟨Option.not_isSome_iff_eq_none.mp h.1, (Option.some.inj h.2).symm⟩

theorem step?_change {name : String} {c : Column} (h : t.step? (.change name c) = some live) :
    live = t.set name (columnClause name c) := by
  rw [LiveTable.step?, Option.ite_none_right_eq_some] at h
  exact (Option.some.inj h.2).symm

theorem step?_drop {name : String} (h : t.step? (.drop name) = some live) :
    live = t.set name none := by
  rw [LiveTable.step?, Option.ite_none_right_eq_some] at h
  exact (Option.some.inj h.2).symm

/-- Steps that each give a column its clause leave the clauses of a schema. -/
theorem live_of_run_entries {step : String → Column → Alteration}
    (hstep : ∀ {t t' : LiveTable} {name c}, t.step? (step name c) = some t' →
      t' = t.set name (columnClause name c)) (s : TableSchema)
    (h : t.run? (s.entries.map fun (name, c) => step name c) = some live) (name : String) :
    live name = (s.live name).or (t name) := by
  obtain ⟨entries, distinct⟩ := s
  show live name = ((entries.lookup name).map (columnClause name)).or (t name)
  induction entries generalizing t with
  | nil =>
    obtain rfl : t = live := Option.some.inj h
    rfl
  | cons e rest ih =>
    obtain ⟨first, c⟩ := e
    obtain ⟨hfresh, hrest⟩ := List.nodup_cons.mp distinct
    obtain ⟨mid, hfirst, hrun⟩ := run?_cons h
    rw [ih hrest hrun, hstep hfirst, lookup_cons_eq, LiveTable.set]
    by_cases heq : name = first
    · subst heq
      have hnone : rest.lookup name = none := by
        rw [← Option.not_isSome_iff_eq_none, lookup_isSome_iff]
        exact hfresh
      rw [hnone, if_pos rfl, if_pos rfl]
      rfl
    · rw [if_neg heq, if_neg heq]

/-- Columns are added under names that are not in use. -/
theorem absent_of_run_added {added : TableSchema}
    (h : t.run? (added.entries.map fun (name, c) => .add name c) = some live) {name : String}
    {c : Column} (hname : added.get? name = some c) : t name = none := by
  obtain ⟨entries, distinct⟩ := added
  change entries.lookup name = some c at hname
  induction entries generalizing t with
  | nil => exact nomatch hname
  | cons e rest ih =>
    obtain ⟨first, c'⟩ := e
    obtain ⟨hfresh, hrest⟩ := List.nodup_cons.mp distinct
    obtain ⟨mid, hfirst, hrun⟩ := run?_cons h
    obtain ⟨hfree, rfl⟩ := step?_add hfirst
    rw [lookup_cons_eq] at hname
    split at hname
    · rename_i heq
      exact heq ▸ hfree
    · rename_i heq
      have hmid := ih hrest hrun hname
      rwa [LiveTable.set, if_neg heq] at hmid

theorem live_of_run_dropped {names : List String}
    (h : t.run? (names.map .drop) = some live) (name : String) :
    live name = if name ∈ names then none else t name := by
  induction names generalizing t with
  | nil =>
    obtain rfl : t = live := Option.some.inj h
    rfl
  | cons first rest ih =>
    obtain ⟨mid, hfirst, hrun⟩ := run?_cons h
    rw [ih hrun, step?_drop hfirst, LiveTable.set]
    by_cases heq : name = first
    · simp [heq]
    · simp [heq]

end Parts

/-! ## The whole statement -/

/-- No column is added and dropped, or added with one clause and changed to another. -/
def SchemaDiff.Settled (d : SchemaDiff) : Prop :=
  ∀ name c, d.added.get? name = some c → name ∉ d.dropped ∧
    ∀ c', d.changed.get? name = some c' → columnClause name c' = columnClause name c

theorem live_filter (s : TableSchema) (p : String → Bool) (name : String) :
    TableSchema.live (s.filter fun name _ => p name) name = if p name then s.live name else none := by
  rw [TableSchema.live, OrderedMap.get?_filter, TableSchema.live]
  cases s.get? name <;> cases p name <;> rfl

section Whole
variable {stored : TableSchema} {d : SchemaDiff} {live : LiveTable}

/-- Changes and drops are made where the stored schema has the column. -/
theorem live_of_run (h : stored.live.run? (alterations stored d) = some live) :
    (∀ name c, d.added.get? name = some c → stored.get? name = none) ∧
      ∀ name, live name = match stored.get? name with
        | some c => if name ∈ d.dropped then none
          else some (columnClause name ((d.changed.get? name).getD c))
        | none => d.added.live name := by
  obtain ⟨mid, hkept, hdropped⟩ := run?_append h
  obtain ⟨first, hadded, hchanged⟩ := run?_append hkept
  refine ⟨fun name c hname => ?_, fun name => ?_⟩
  · exact Option.map_eq_none_iff.mp (absent_of_run_added hadded hname)
  · have hmid := live_of_run_entries step?_change _ hchanged name
    have hfirst := live_of_run_entries (fun h => (step?_add h).2) d.added hadded name
    rw [live_of_run_dropped hdropped name, hmid, hfirst, live_filter]
    cases hstored : stored.get? name with
    | none =>
      have hout : stored.contains name = false := by simp [OrderedMap.contains, hstored]
      have hlive : stored.live name = none := by simp [TableSchema.live, hstored]
      have hmem : name ∉ d.dropped.filter stored.contains := fun hmem =>
        absurd (List.mem_filter.mp hmem).2 (Bool.eq_false_iff.mp hout)
      rw [if_neg hmem, hout, hlive]
      cases d.added.live name <;> rfl
    | some c =>
      have hin : stored.contains name = true := by simp [OrderedMap.contains, hstored]
      have hlive : stored.live name = some (columnClause name c) := by
        simp [TableSchema.live, hstored]
      have hfree : d.added.live name = none := by
        rw [TableSchema.live, Option.map_eq_none_iff]
        by_contra hname
        obtain ⟨c', hc'⟩ := Option.ne_none_iff_exists'.mp hname
        exact Option.some_ne_none _ (hlive.symm.trans (absent_of_run_added hadded hc'))
      have hmem : name ∈ d.dropped.filter stored.contains ↔ name ∈ d.dropped := by
        rw [List.mem_filter, and_iff_left hin]
      rw [hin, if_pos rfl, hfree, hlive, TableSchema.live]
      simp only [hmem]
      cases d.changed.get? name <;> rfl

theorem merge_live (stored : TableSchema) (d : SchemaDiff) (name : String) :
    (stored.merge d).live name = if name ∈ d.dropped then none else
      ((d.added.get? name).or (stored.get? name)).map fun c =>
        columnClause name ((d.changed.get? name).getD c) := by
  rw [TableSchema.live, TableSchema.get?_merge]
  split
  · rfl
  · rw [Option.map_map, Function.comp_def]

/-- The two tables differ only where a column is added. -/
theorem live_eq_merge_iff (h : stored.live.run? (alterations stored d) = some live) :
    live = (stored.merge d).live ↔ d.Settled := by
  obtain ⟨hfree, hlive⟩ := live_of_run h
  constructor
  · rintro rfl name c hname
    have hsame := hlive name
    rw [merge_live, hfree name c hname, hname, TableSchema.live, hname] at hsame
    by_cases hdropped : name ∈ d.dropped
    · simp [hdropped] at hsame
    · refine ⟨hdropped, fun c' hc' => ?_⟩
      simpa [hdropped, hc'] using hsame
  · intro hsettled
    funext name
    rw [hlive name, merge_live]
    cases hstored : stored.get? name with
    | some c =>
      have hnone : d.added.get? name = none := by
        cases hname : d.added.get? name with
        | none => rfl
        | some c' => exact absurd (hstored.symm.trans (hfree name c' hname)) nofun
      rw [hnone]
      rfl
    | none =>
      rw [TableSchema.live]
      cases hname : d.added.get? name with
      | none => simp
      | some c =>
        obtain ⟨hkept, hchanged⟩ := hsettled name c hname
        rw [if_neg hkept]
        cases hc : d.changed.get? name with
        | none => rfl
        | some c' => simp [hchanged c' hc]

/-- Without a statement there is nothing to merge. -/
theorem merge_of_no_alterations (h : alterations stored d = []) : stored.merge d = stored := by
  obtain ⟨hkept, hdropped⟩ := List.append_eq_nil_iff.mp h
  obtain ⟨hadded, hchanged⟩ := List.append_eq_nil_iff.mp hkept
  have hnone : ∀ name ∈ d.changed.names, stored.contains name = false := by
    intro name hname
    obtain ⟨⟨n, c⟩, hmem, rfl⟩ := List.mem_map.mp hname
    have hout := List.filter_eq_nil_iff.mp (List.map_eq_nil_iff.mp hchanged) (n, c) hmem
    exact Bool.eq_false_iff.mpr hout
  have hout : ∀ name ∈ d.dropped, stored.contains name = false := by
    intro name hname
    have hout := List.filter_eq_nil_iff.mp (List.map_eq_nil_iff.mp hdropped) name hname
    exact Bool.eq_false_iff.mpr hout
  unfold TableSchema.merge
  rw [List.map_eq_nil_iff.mp hadded]
  show (stored.replaceAll d.changed.entries).eraseAll d.dropped = stored
  rw [OrderedMap.replaceAll_eq_self hnone, OrderedMap.eraseAll_eq_self hout]

end Whole

/-- The statement is made of the clauses of all steps. If they all take effect, the table has the
columns of the merged schema, each with its clause, exactly when the difference is settled. And there
is no statement only where merging changes nothing. -/
theorem altered_eq_merge_iff (naming : TableNaming) (table : String) (stored : TableSchema)
    (d : SchemaDiff) :
    (∀ sql, alterTable? naming table stored d = some sql →
      sql = "ALTER TABLE " ++ naming.quoted table ++ " " ++
        commaSeparated ((alterations stored d).map (·.sql))) ∧
      (∀ live, stored.live.alterAll? ((alterations stored d).map (·.sql)) = some live →
        (live = (stored.merge d).live ↔ d.Settled)) ∧
      (alterTable? naming table stored d = none → stored.merge d = stored) := by
  refine ⟨fun sql hsql => ?_, fun live hlive => ?_, fun hnone => ?_⟩
  · unfold alterTable? at hsql
    exact (Option.some.inj (Option.ite_none_left_eq_some.mp hsql).2).symm
  · rw [alterAll?_sql] at hlive
    exact live_eq_merge_iff hlive
  · unfold alterTable? at hnone
    simp only [ite_eq_left_iff, reduceCtorEq, imp_false, Bool.not_eq_true, Bool.not_eq_false] at hnone
    exact merge_of_no_alterations (List.isEmpty_iff.mp hnone)

/-- Texts in `a`, which get longer, and a new flag `b`. -/
def textsTable : TableSchema := .ofList [("a", .string 10)]

def longerTexts : SchemaDiff where
  added := .ofList [("b", .bool)]
  changed := .ofList [("a", .string 20)]
  dropped := []

/-- The one statement makes the table that the merged schema describes. -/
theorem altered_eq_merge_longerTexts :
    (textsTable.live.alterAll? ((alterations textsTable longerTexts).map (·.sql))).isSome ∧
      (alterTable? {} "t" textsTable longerTexts).isSome ∧
      ∀ live, textsTable.live.alterAll? ((alterations textsTable longerTexts).map (·.sql)) =
        some live → live = (textsTable.merge longerTexts).live := by
  refine ⟨by rw [alterAll?_sql]; rfl, rfl, fun live hlive => ?_⟩
  refine ((altered_eq_merge_iff {} "t" textsTable longerTexts).2.1 live hlive).mpr ?_
  intro name c hadded
  refine ⟨nofun, fun c' hchanged => ?_⟩
  have hnames : ∀ name ∈ longerTexts.added.names, name ∉ longerTexts.changed.names := by decide
  have hin : longerTexts.added.contains name = true := by simp [OrderedMap.contains, hadded]
  have hin' : longerTexts.changed.contains name = true := by simp [OrderedMap.contains, hchanged]
  exact absurd (OrderedMap.contains_iff.mp hin') (hnames name (OrderedMap.contains_iff.mp hin))

/-- Adds the column `x` and drops it. -/
def addedAndDropped : SchemaDiff where
  added := .ofList [("x", { kind := .int })]
  changed := ∅
  dropped := ["x"]

/-- A table without columns has `x` afterwards, and the merged schema does not. -/
theorem altered_ne_merge_addedAndDropped :
    ∃ live, (∅ : TableSchema).live.alterAll? ((alterations ∅ addedAndDropped).map (·.sql)) =
        some live ∧
      live "x" = some "\x60x\x60 INT(1)" ∧ ((∅ : TableSchema).merge addedAndDropped).live "x" = none := by
  refine ⟨_, by rw [alterAll?_sql]; rfl, ?_, rfl⟩
  decide

end ContentTables
