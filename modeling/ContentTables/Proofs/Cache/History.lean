import ContentTables.Cache.Grouped
import Mathlib.Data.List.Induction

/-!
# What a cache holds after a history of calls

* `CacheCall`, `GroupedCache.perform`, `GroupedCache.after` : the calls that change a cache, and the
  cache after a history of them;
* `CacheCall.Stores`, `CacheCall.Removes`, `clearsOf`, `LastStored` : what a history alone tells, of
  a call, of a group, and of a key;
* `get?_perform_of_stores`, `get?_perform_of_removes`, `get?_perform_of_other` and
  `generation_perform` : one call; `get?_after_eq_some_iff`, `generation_after` : a whole history;
* `GroupedCache.AgreeOn` : two caches give the same answers about a group; `agreeOn_perform_of_ne`,
  `agreeOn_after_filter` : calls on other groups do not count;
* `after_history` : the answers of a cache are those of its history.
-/

namespace ContentTables

/-! ## Histories -/

variable {α : Type}

inductive CacheCall (α : Type) where
  | set (group key : String) (value : α)
  | keep (group key : String) (value : α) (generation : Nat)
  | clear (group key : String)
  | clearGroup (group : String)

namespace CacheCall

def group : CacheCall α → String
  | .set group _ _ | .keep group _ _ _ | .clear group _ | .clearGroup group => group

/-- A clear of the group, or of one of its keys. -/
def clears (group : String) : CacheCall α → Bool
  | .set _ _ _ | .keep _ _ _ _ => false
  | .clear g _ | .clearGroup g => group == g

def Removes (group key : String) : CacheCall α → Prop
  | .set _ _ _ | .keep _ _ _ _ => False
  | .clear g k => group = g ∧ key = k
  | .clearGroup g => group = g

end CacheCall

def clearsOf (group : String) (history : List (CacheCall α)) : Nat :=
  history.countP (·.clears group)

/-- The call stores the value under the key, with that history before it: always, or only if the
group was cleared as often as the call says. -/
inductive CacheCall.Stores (history : List (CacheCall α)) (group key : String) (value : α) :
    CacheCall α → Prop
  | set : Stores history group key value (.set group key value)
  | keep : Stores history group key value (.keep group key value (clearsOf group history))

/-- The value is the last one stored under the key, and the key was not removed since. -/
def LastStored (history : List (CacheCall α)) (group key : String) (value : α) : Prop :=
  ∃ past call later, history = past ++ call :: later ∧ call.Stores past group key value ∧
    ∀ between next rest, later = between ++ next :: rest → ¬ next.Removes group key ∧
      ∀ other, ¬ next.Stores (past ++ call :: between) group key other

section Histories

variable {group key : String} {value : α}

theorem not_lastStored_nil : ¬ LastStored [] group key value := by
  rintro ⟨past, call, later, h, _⟩
  exact List.append_ne_nil_of_right_ne_nil past (List.cons_ne_nil call later) h.symm

theorem CacheCall.Stores.unique {history : List (CacheCall α)} {call : CacheCall α} {other : α}
    (h : call.Stores history group key value) (h' : call.Stores history group key other) :
    value = other := by
  cases h <;> cases h' <;> rfl

/-- The last call decides, unless it does nothing to the key. -/
theorem lastStored_append {history : List (CacheCall α)} {call : CacheCall α} :
    LastStored (history ++ [call]) group key value ↔ call.Stores history group key value ∨
      LastStored history group key value ∧ ¬ call.Removes group key ∧
        ∀ other, ¬ call.Stores history group key other := by
  constructor
  · rintro ⟨past, first, later, hsplit, hstores, hlater⟩
    rcases List.eq_nil_or_concat later with rfl | ⟨later, last, rfl⟩
    · obtain ⟨rfl, hcall⟩ := List.append_inj' hsplit rfl
      obtain rfl := (List.cons.inj hcall).1
      exact .inl hstores
    · rw [List.concat_eq_append, ← List.cons_append, ← List.append_assoc] at hsplit
      obtain ⟨rfl, hcall⟩ := List.append_inj' hsplit rfl
      obtain rfl := (List.cons.inj hcall).1
      refine .inr ⟨⟨past, first, later, rfl, hstores, fun between next rest h => ?_⟩, ?_⟩
      · refine hlater between next (rest ++ [call]) ?_
        rw [List.concat_eq_append, h, List.append_assoc, List.cons_append]
      · exact hlater later call [] (List.concat_eq_append ..)
  · rintro (hstores | ⟨⟨past, first, later, rfl, hstores, hlater⟩, hremoves, hother⟩)
    · refine ⟨history, call, [], rfl, hstores, fun between next rest h => ?_⟩
      exact absurd h.symm (List.append_ne_nil_of_right_ne_nil between (List.cons_ne_nil next rest))
    · refine ⟨past, first, later ++ [call], by simp, hstores, fun between next rest h => ?_⟩
      rcases List.eq_nil_or_concat rest with rfl | ⟨rest, last, rfl⟩
      · obtain ⟨rfl, hcall⟩ := List.append_inj' h rfl
        obtain rfl := (List.cons.inj hcall).1
        exact ⟨hremoves, hother⟩
      · rw [List.concat_eq_append, ← List.cons_append, ← List.append_assoc] at h
        exact hlater between next rest (List.append_inj' h rfl).1

end Histories

/-! ## One call -/

namespace GroupedCache

variable {c d : GroupedCache α} {call : CacheCall α} {history : List (CacheCall α)}
  {group key : String} {value : α}

def perform (c : GroupedCache α) : CacheCall α → GroupedCache α
  | .set group key value => c.set group key value
  | .keep group key value generation => (c.keep group key value generation).2
  | .clear group key => c.clear group key
  | .clearGroup group => c.clearGroup group

def after (history : List (CacheCall α)) : GroupedCache α := history.foldl perform empty

theorem after_append (history : List (CacheCall α)) (call : CacheCall α) :
    after (history ++ [call]) = (after history).perform call := by
  unfold after
  rw [List.foldl_append]
  rfl

theorem keep_of_eq {generation : Nat} (h : generation = c.generation group) :
    c.keep group key value generation = (true, c.set group key value) := if_pos h.symm

theorem keep_of_ne {generation : Nat} (h : generation ≠ c.generation group) :
    c.keep group key value generation = (false, c) := if_neg h.symm

theorem perform_keep (c : GroupedCache α) (group key : String) (value : α) (generation : Nat) :
    c.perform (.keep group key value generation) =
      if generation = c.generation group then c.perform (.set group key value) else c := by
  split
  · rename_i h
    exact congrArg Prod.snd (keep_of_eq h)
  · rename_i h
    exact congrArg Prod.snd (keep_of_ne h)

theorem generation_perform (c : GroupedCache α) (call : CacheCall α) (group : String) :
    (c.perform call).generation group =
      c.generation group + if call.clears group then 1 else 0 := by
  cases call with
  | set g k v => exact c.generation_set g k group v
  | keep g k v generation =>
    rw [perform_keep]
    split
    · exact c.generation_set g k group v
    · rfl
  | clear g k =>
    refine (c.generation_clear g k group).trans ?_
    simp only [CacheCall.clears, beq_iff_eq]
  | clearGroup g =>
    refine (c.generation_clearGroup g group).trans ?_
    simp only [CacheCall.clears, beq_iff_eq]

theorem get?_perform_of_stores (h : call.Stores history group key value)
    (hgeneration : c.generation group = clearsOf group history) :
    (c.perform call).get? group key = some value := by
  have hset : (c.perform (.set group key value)).get? group key = some value :=
    (c.get?_set ..).trans (if_pos ⟨rfl, rfl⟩)
  cases h with
  | set => exact hset
  | keep => rw [perform_keep, if_pos hgeneration.symm, hset]

theorem get?_perform_of_removes (h : call.Removes group key) :
    (c.perform call).get? group key = none := by
  cases call with
  | set | keep => exact h.elim
  | clear g k => exact (c.get?_clear ..).trans (if_pos h)
  | clearGroup g => exact (c.get?_clearGroup ..).trans (if_pos h)

theorem get?_perform_of_other (hremoves : ¬ call.Removes group key)
    (hstores : ∀ value, ¬ call.Stores history group key value)
    (hgeneration : c.generation group = clearsOf group history) :
    (c.perform call).get? group key = c.get? group key := by
  cases call with
  | set g k v =>
    refine (c.get?_set ..).trans (if_neg ?_)
    rintro ⟨rfl, rfl⟩
    exact hstores v .set
  | keep g k v generation =>
    rw [perform_keep]
    split
    · rename_i hcurrent
      refine (c.get?_set ..).trans (if_neg ?_)
      rintro ⟨rfl, rfl⟩
      rw [hcurrent, hgeneration] at hstores
      exact hstores v .keep
    · rfl
  | clear g k => exact (c.get?_clear ..).trans (if_neg hremoves)
  | clearGroup g => exact (c.get?_clearGroup ..).trans (if_neg hremoves)

/-! ## A history -/

theorem generation_after (history : List (CacheCall α)) (group : String) :
    (after history).generation group = clearsOf group history := by
  induction history using List.reverseRecOn with
  | nil => rfl
  | append_singleton history call ih =>
    rw [after_append, generation_perform, ih, clearsOf, clearsOf, List.countP_append,
      List.countP_singleton]

/-- By induction on the history: its last call stores under the key, removes it, or neither. -/
theorem get?_after_eq_some_iff : (after history).get? group key = some value ↔
    LastStored history group key value := by
  induction history using List.reverseRecOn with
  | nil => exact iff_of_false nofun not_lastStored_nil
  | append_singleton history call ih =>
    have hgeneration := generation_after history group
    rw [after_append, lastStored_append]
    by_cases hstores : ∃ stored, call.Stores history group key stored
    · obtain ⟨stored, hstored⟩ := hstores
      rw [get?_perform_of_stores hstored hgeneration, Option.some_inj]
      constructor
      · rintro rfl
        exact .inl hstored
      · rintro (hvalue | ⟨_, _, hnone⟩)
        · exact hstored.unique hvalue
        · exact absurd hstored (hnone stored)
    have hnone : ∀ stored, ¬ call.Stores history group key stored := not_exists.mp hstores
    by_cases hremoves : call.Removes group key
    · rw [get?_perform_of_removes hremoves]
      refine iff_of_false nofun ?_
      rintro (hvalue | ⟨_, hkept, _⟩)
      · exact hnone value hvalue
      · exact hkept hremoves
    · rw [get?_perform_of_other hremoves hnone hgeneration, ih]
      exact ⟨fun h => .inr ⟨h, hremoves, hnone⟩, fun h => (h.resolve_left (hnone value)).1⟩

/-! ## Other groups -/

/-- Every answer about the group is the same. -/
structure AgreeOn (group : String) (c d : GroupedCache α) : Prop where
  get? : ∀ key, c.get? group key = d.get? group key
  contains : ∀ key, c.contains group key = d.contains group key
  generation : c.generation group = d.generation group
  kept : ∀ key value generation,
    (c.keep group key value generation).1 = (d.keep group key value generation).1

theorem agreeOn_iff : AgreeOn group c d ↔
    (∀ key, c.get? group key = d.get? group key) ∧ c.generation group = d.generation group := by
  constructor
  · exact fun h => ⟨h.get?, h.generation⟩
  · rintro ⟨hget, hgeneration⟩
    refine ⟨hget, fun key => congrArg Option.isSome (hget key), hgeneration, fun key value n => ?_⟩
    unfold keep
    rw [hgeneration]
    split <;> rfl

theorem AgreeOn.trans {e : GroupedCache α} (h : AgreeOn group c d) (h' : AgreeOn group d e) :
    AgreeOn group c e :=
  agreeOn_iff.mpr ⟨fun key => (h.get? key).trans (h'.get? key), h.generation.trans h'.generation⟩

theorem AgreeOn.perform (h : AgreeOn call.group c d) :
    AgreeOn call.group (c.perform call) (d.perform call) := by
  refine agreeOn_iff.mpr ⟨fun key => ?_, ?_⟩
  · have hset : ∀ g k v,
        (c.set g k v).get? call.group key = (d.set g k v).get? call.group key := by
      intro g k v
      rw [get?_set, get?_set, h.get?]
    cases call with
    | set g k v => exact hset g k v
    | keep g k v generation =>
      rw [perform_keep, perform_keep, show c.generation g = d.generation g from h.generation]
      split
      · exact hset g k v
      · exact h.get? key
    | clear g k => exact (c.get?_clear ..).trans (h.get? key ▸ (d.get?_clear ..).symm)
    | clearGroup g => exact (c.get?_clearGroup ..).trans (h.get? key ▸ (d.get?_clearGroup ..).symm)
  · rw [generation_perform, generation_perform, h.generation]

/-- A call on one group changes no answer about another. -/
theorem agreeOn_perform_of_ne (c : GroupedCache α) (h : call.group ≠ group) :
    AgreeOn group (c.perform call) c := by
  have hother : ∀ g, g = call.group → ∀ p : Prop, ¬ (group = g ∧ p) := by
    rintro g rfl p hsame
    exact h hsame.1.symm
  refine agreeOn_iff.mpr ⟨fun key => ?_, ?_⟩
  · cases call with
    | set g k v => exact (c.get?_set ..).trans (if_neg (hother g rfl _))
    | keep g k v generation =>
      rw [perform_keep]
      split
      · exact (c.get?_set ..).trans (if_neg (hother g rfl _))
      · rfl
    | clear g k => exact (c.get?_clear ..).trans (if_neg (hother g rfl _))
    | clearGroup g => exact (c.get?_clearGroup ..).trans (if_neg h.symm)
  · have hclears : call.clears group = false := by
      cases call with
      | set | keep => rfl
      | clear g k => exact beq_eq_false_iff_ne.mpr h.symm
      | clearGroup g => exact beq_eq_false_iff_ne.mpr h.symm
    rw [generation_perform, hclears]
    rfl

/-- The calls on a group alone lead to the same answers about it. -/
theorem agreeOn_after_filter (history : List (CacheCall α)) (group : String) :
    AgreeOn group (after history) (after (history.filter (·.group = group))) := by
  induction history using List.reverseRecOn with
  | nil => exact agreeOn_iff.mpr ⟨fun _ => rfl, rfl⟩
  | append_singleton history call ih =>
    rw [after_append, List.filter_append]
    by_cases h : call.group = group
    · subst h
      rw [List.filter_cons_of_pos (by simp), List.filter_nil, after_append]
      exact ih.perform
    · rw [List.filter_cons_of_neg (by simp [h]), List.filter_nil, List.append_nil]
      exact ((after history).agreeOn_perform_of_ne h).trans ih

/-- After every history, a cache answers as the history tells: what a key holds, how often a group
was cleared, which values are kept, and nothing about one group from calls on another. -/
theorem after_history (history : List (CacheCall α)) :
    (∀ group key value, (after history).get? group key = some value ↔
      LastStored history group key value) ∧
    (∀ group key, (after history).get? group key = none ↔
      ¬ ∃ value, LastStored history group key value) ∧
    (∀ group, (after history).generation group = clearsOf group history) ∧
    (∀ group key value generation,
      (generation = clearsOf group history → (after history).keep group key value generation =
        (true, after (history ++ [.set group key value]))) ∧
      (generation ≠ clearsOf group history →
        (after history).keep group key value generation = (false, after history))) ∧
    (∀ call group, call.group ≠ group →
      AgreeOn group (after (history ++ [call])) (after history)) ∧
    ∀ group, AgreeOn group (after history) (after (history.filter (·.group = group))) := by
  have hget : ∀ group key value, (after history).get? group key = some value ↔
      LastStored history group key value := fun _ _ _ => get?_after_eq_some_iff
  refine ⟨hget, fun group key => ?_, generation_after history, fun group key value generation => ?_,
    fun call group h => ?_, agreeOn_after_filter history⟩
  · rw [Option.eq_none_iff_forall_ne_some, not_exists]
    exact forall_congr' fun value => not_congr (hget group key value)
  · rw [← generation_after, after_append]
    exact ⟨fun h => keep_of_eq h, fun h => keep_of_ne h⟩
  · rw [after_append]
    exact (after history).agreeOn_perform_of_ne h

/-- The clear of another key makes the first reader's value stale. -/
example : (after [.clear "posts" "2", .keep "posts" "1" "old" 0, .keep "posts" "1" "new" 1]).get?
    "posts" "1" = some "new" := by decide

end GroupedCache

end ContentTables
