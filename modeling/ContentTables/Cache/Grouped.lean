import ContentTables.OrderedMap

/-!
# Grouped caches

Entries are kept in groups, until their key or their group is cleared. A group is made for its first
entry, and is removed as a whole when it is cleared. Every clear advances the generation of its
group; the generations are kept apart from the groups and outlive them. A reader that fetched a
value keeps it under the generation that it saw before the fetch, so a value read before a
concurrent write is not kept.

* `GroupedCache.get?`, `GroupedCache.generation` : what a group holds, and how often it was cleared;
* `GroupedCache.set`, `GroupedCache.keep` : stores always, or only under the current generation;
* `GroupedCache.clear`, `GroupedCache.clearGroup` : removes one key, or a whole group;
* `get?_set`, `get?_clear`, `generation_clear` and their like : what each operation changes, and
  that no operation on one group is seen in another.
-/

namespace ContentTables

variable {α : Type}

structure GroupedCache (α : Type) where
  groups : OrderedMap (OrderedMap α)
  generations : OrderedMap Nat

namespace GroupedCache

def empty : GroupedCache α := ⟨∅, ∅⟩

instance : Inhabited (GroupedCache α) := ⟨empty⟩

def get? (c : GroupedCache α) (group key : String) : Option α :=
  (c.groups.get? group).bind (·.get? key)

def contains (c : GroupedCache α) (group key : String) : Bool := (c.get? group key).isSome

/-- A group that was never cleared has generation zero. -/
def generation (c : GroupedCache α) (group : String) : Nat := (c.generations.get? group).getD 0

def set (c : GroupedCache α) (group key : String) (value : α) : GroupedCache α :=
  let entries := (c.groups.get? group).getD ∅
  { c with groups := c.groups.insert group (entries.insert key value) }

/-- Stores under the current generation only, and says whether it did. -/
def keep (c : GroupedCache α) (group key : String) (value : α) (generation : Nat) :
    Bool × GroupedCache α :=
  if c.generation group = generation then (true, c.set group key value) else (false, c)

def advance (c : GroupedCache α) (group : String) : GroupedCache α :=
  { c with generations := c.generations.insert group (c.generation group + 1) }

def clear (c : GroupedCache α) (group key : String) : GroupedCache α :=
  match c.groups.get? group with
  | some entries => { c.advance group with groups := c.groups.insert group (entries.erase key) }
  | none => c.advance group

def clearGroup (c : GroupedCache α) (group : String) : GroupedCache α :=
  { c.advance group with groups := c.groups.erase group }

/-! ## What each operation does -/

theorem get?_set (c : GroupedCache α) (group key group' key' : String) (value : α) :
    (c.set group key value).get? group' key' =
      if group' = group ∧ key' = key then some value else c.get? group' key' := by
  by_cases h : group' = group
  · subst h
    cases hentries : c.groups.get? group' <;>
      simp [get?, set, hentries, OrderedMap.get?_insert, OrderedMap.get?_empty]
  · simp [get?, set, h, OrderedMap.get?_insert]

theorem generation_set (c : GroupedCache α) (group key group' : String) (value : α) :
    (c.set group key value).generation group' = c.generation group' := rfl

theorem generation_advance (c : GroupedCache α) (group group' : String) :
    (c.advance group).generation group' =
      c.generation group' + if group' = group then 1 else 0 := by
  by_cases h : group' = group
  · subst h; simp [generation, advance, OrderedMap.get?_insert]
  · simp [generation, advance, h, OrderedMap.get?_insert]

theorem get?_clear (c : GroupedCache α) (group key group' key' : String) :
    (c.clear group key).get? group' key' =
      if group' = group ∧ key' = key then none else c.get? group' key' := by
  unfold clear
  split
  · rename_i entries hentries
    by_cases h : group' = group
    · subst h; simp [get?, hentries, OrderedMap.get?_insert, OrderedMap.get?_erase]
    · simp [get?, h, OrderedMap.get?_insert]
  · rename_i hnone
    by_cases h : group' = group
    · subst h; simp [get?, advance, hnone]
    · simp [get?, advance, h]

theorem generation_clear (c : GroupedCache α) (group key group' : String) :
    (c.clear group key).generation group' =
      c.generation group' + if group' = group then 1 else 0 := by
  unfold clear
  split <;> exact c.generation_advance group group'

theorem get?_clearGroup (c : GroupedCache α) (group group' key' : String) :
    (c.clearGroup group).get? group' key' =
      if group' = group then none else c.get? group' key' := by
  by_cases h : group' = group
  · subst h; simp [get?, clearGroup, OrderedMap.get?_erase]
  · simp [get?, clearGroup, h, OrderedMap.get?_erase]

theorem generation_clearGroup (c : GroupedCache α) (group group' : String) :
    (c.clearGroup group).generation group' =
      c.generation group' + if group' = group then 1 else 0 :=
  c.generation_advance group group'

end GroupedCache

end ContentTables
