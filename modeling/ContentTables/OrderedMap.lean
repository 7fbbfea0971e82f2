/-!
# Maps that keep their order

Rows, schemas and objects list their names in an order that shows in every statement built from
them. On plain association lists:

* `putEntry` : a name already there keeps its place and takes the new value, a new name goes last;
* `dropEntry` : removes a name;
* `ofPairs` : the entries put one after the other;
* `lookup_putEntry`, `lookup_dropEntry`, `lookup_eq_some_iff` : what a look-up finds afterwards.

`OrderedMap` is an association list without repeated names, and every operation keeps it so.
-/

namespace ContentTables

variable {α β : Type}

/-! ## Association lists -/

def putEntry (name : String) (value : α) : List (String × α) → List (String × α)
  | [] => [(name, value)]
  | (n, v) :: rest =>
    if n = name then (name, value) :: rest else (n, v) :: putEntry name value rest

def dropEntry (name : String) (entries : List (String × α)) : List (String × α) :=
  entries.filter fun (n, _) => n != name

def ofPairs (pairs : List (String × α)) : List (String × α) :=
  pairs.foldl (fun entries (n, v) => putEntry n v entries) []

def namesOf (entries : List (String × α)) : List String :=
  entries.map Prod.fst

theorem namesOf_putEntry (name : String) (value : α) (entries : List (String × α)) :
    namesOf (putEntry name value entries) =
      if name ∈ namesOf entries then namesOf entries else namesOf entries ++ [name] := by
  induction entries with
  | nil => simp [putEntry, namesOf]
  | cons e rest ih =>
    obtain ⟨n, v⟩ := e
    by_cases h : n = name
    · subst h; simp [putEntry, namesOf]
    · have h' : name ≠ n := fun e => h e.symm
      simp only [putEntry, h, if_false, namesOf, List.map_cons, List.mem_cons, h', false_or]
      simp only [namesOf] at ih
      rw [ih]
      split <;> simp [*]

theorem nodup_namesOf_putEntry {name : String} {value : α} {entries : List (String × α)}
    (h : (namesOf entries).Nodup) : (namesOf (putEntry name value entries)).Nodup := by
  rw [namesOf_putEntry]
  split
  · exact h
  · rename_i hn
    rw [List.nodup_append]
    exact ⟨h, by simp, fun a ha b hb hab => by
      rw [List.mem_singleton] at hb
      exact hn (hb ▸ hab ▸ ha)⟩

theorem nodup_namesOf_ofPairs (pairs : List (String × α)) : (namesOf (ofPairs pairs)).Nodup := by
  have step : ∀ (pairs entries : List (String × α)), (namesOf entries).Nodup →
      (namesOf (pairs.foldl (fun entries (n, v) => putEntry n v entries) entries)).Nodup := by
    intro pairs
    induction pairs with
    | nil => exact fun _ h => h
    | cons p rest ih => exact fun entries h => ih _ (nodup_namesOf_putEntry h)
  exact step pairs [] (by simp [namesOf])

theorem lookup_cons_eq (n key : String) (v : α) (rest : List (String × α)) :
    List.lookup key ((n, v) :: rest) = if key = n then some v else rest.lookup key := by
  by_cases h : key = n
  · simp [h]
  · simp [List.lookup_cons, h, beq_eq_false_iff_ne.2 h]

theorem lookup_putEntry (name key : String) (value : α) (entries : List (String × α)) :
    (putEntry name value entries).lookup key =
      if key = name then some value else entries.lookup key := by
  induction entries with
  | nil => simp [putEntry, lookup_cons_eq]
  | cons e rest ih => grind [putEntry, lookup_cons_eq]

theorem lookup_dropEntry (name key : String) (entries : List (String × α)) :
    (dropEntry name entries).lookup key =
      if key = name then none else entries.lookup key := by
  induction entries with
  | nil => simp [dropEntry]
  | cons e rest ih =>
    simp only [dropEntry, List.filter_cons] at ih ⊢
    grind [lookup_cons_eq]

theorem lookup_isSome_iff {name : String} {entries : List (String × α)} :
    (entries.lookup name).isSome = true ↔ name ∈ namesOf entries := by
  induction entries with
  | nil => simp [namesOf]
  | cons e rest ih => grind [lookup_cons_eq, namesOf]

/-- Where names are not repeated, looking up finds exactly the entries. -/
theorem lookup_eq_some_iff {name : String} {value : α} {entries : List (String × α)}
    (distinct : (namesOf entries).Nodup) :
    entries.lookup name = some value ↔ (name, value) ∈ entries := by
  induction entries with
  | nil => simp
  | cons e rest ih =>
    obtain ⟨n, v⟩ := e
    simp only [namesOf, List.map_cons, List.nodup_cons] at distinct
    rw [lookup_cons_eq, List.mem_cons]
    split
    · subst n
      have absent : (name, value) ∉ rest := fun m => distinct.1 (List.mem_map_of_mem m)
      simp [absent, eq_comm]
    · simp_all [namesOf]

/-! ## The map -/

structure OrderedMap (α : Type) where
  entries : List (String × α)
  distinct : (namesOf entries).Nodup

namespace OrderedMap

@[ext] theorem ext {m n : OrderedMap α} (h : m.entries = n.entries) : m = n := by
  cases m; cases n; cases h; rfl

def empty : OrderedMap α := ⟨[], by simp [namesOf]⟩

instance : EmptyCollection (OrderedMap α) := ⟨empty⟩
instance : Inhabited (OrderedMap α) := ⟨empty⟩

def names (m : OrderedMap α) : List String := namesOf m.entries

def size (m : OrderedMap α) : Nat := m.entries.length

def isEmpty (m : OrderedMap α) : Bool := m.entries.isEmpty

def get? (m : OrderedMap α) (name : String) : Option α := m.entries.lookup name

def contains (m : OrderedMap α) (name : String) : Bool := (m.get? name).isSome

def insert (m : OrderedMap α) (name : String) (value : α) : OrderedMap α :=
  ⟨putEntry name value m.entries, nodup_namesOf_putEntry m.distinct⟩

def erase (m : OrderedMap α) (name : String) : OrderedMap α :=
  ⟨dropEntry name m.entries, m.distinct.sublist (List.filter_sublist.map Prod.fst)⟩

/-- Gives a name a new value only if it is there. -/
def replace (m : OrderedMap α) (name : String) (value : α) : OrderedMap α :=
  if m.contains name then m.insert name value else m

def ofList (pairs : List (String × α)) : OrderedMap α :=
  ⟨ofPairs pairs, nodup_namesOf_ofPairs pairs⟩

def insertAll (m : OrderedMap α) (pairs : List (String × α)) : OrderedMap α :=
  pairs.foldl (fun m (n, v) => m.insert n v) m

def replaceAll (m : OrderedMap α) (pairs : List (String × α)) : OrderedMap α :=
  pairs.foldl (fun m (n, v) => m.replace n v) m

def eraseAll (m : OrderedMap α) (names : List String) : OrderedMap α :=
  names.foldl erase m

/-- The entries of which something holds. -/
def filter (p : String → α → Bool) (m : OrderedMap α) : OrderedMap α :=
  ⟨m.entries.filter fun (n, v) => p n v, m.distinct.sublist (List.filter_sublist.map Prod.fst)⟩

/-- Applies a function that sees the name to every value. -/
def mapValues (f : String → α → β) (m : OrderedMap α) : OrderedMap β :=
  ⟨m.entries.map fun (n, v) => (n, f n v), by
    have h := m.distinct
    simpa [namesOf, Function.comp_def] using h⟩

/-- Both maps hold the same names with equal values, in any order. -/
def sameContent (eq : α → α → Bool) (m n : OrderedMap α) : Bool :=
  m.size == n.size &&
    m.entries.all fun (name, v) => (n.get? name).any (eq v)

@[simp] theorem names_insert (m : OrderedMap α) (name : String) (value : α) :
    (m.insert name value).names = if name ∈ m.names then m.names else m.names ++ [name] :=
  namesOf_putEntry name value m.entries

@[simp] theorem names_erase (m : OrderedMap α) (name : String) :
    (m.erase name).names = m.names.filter (· != name) := by
  simp only [names, namesOf, erase, dropEntry, List.filter_map, Function.comp_def]

theorem get?_insert (m : OrderedMap α) (name key : String) (value : α) :
    (m.insert name value).get? key = if key = name then some value else m.get? key :=
  lookup_putEntry name key value m.entries

theorem get?_erase (m : OrderedMap α) (name key : String) :
    (m.erase name).get? key = if key = name then none else m.get? key :=
  lookup_dropEntry name key m.entries

theorem contains_iff {m : OrderedMap α} {name : String} :
    m.contains name = true ↔ name ∈ m.names := lookup_isSome_iff

theorem get?_eq_some_iff {m : OrderedMap α} {name : String} {value : α} :
    m.get? name = some value ↔ (name, value) ∈ m.entries := lookup_eq_some_iff m.distinct

theorem get?_empty (name : String) : (∅ : OrderedMap α).get? name = none := rfl

end OrderedMap

end ContentTables
