import ContentTables.Hook.Pipeline
import Mathlib.Data.List.Basic

/-!
# The order of handlers, and how far they get

* `Pipeline.StablySorted` : handlers in the order of their priorities, those of one priority in the
  order in which they were added; `StablySorted.unique` : there is one such list;
* `stablySorted_sortedByPriority`, `StablySorted.push`, `stablySorted_registered` : sorting makes
  it, adding one more handler and sorting again keeps it, so every pipeline has its handlers in it;
* `FilterPipeline.Outcome`, `EventPipeline.Outcome` : which handlers are called and what is
  reported, up to the first that fails; `applyAll_eq_iff`, `triggerAll_eq_iff` : both kinds of
  pipelines do that, and nothing else;
* `handlers_in_priority_order` : all of it, for the handlers of every hook.
-/

namespace ContentTables

namespace Pipeline

variable {β : Type} {added others order order' : List (Handler β)}

/-! ## Order -/

def ofPriority (priority : Int) (handlers : List (Handler β)) : List (Handler β) :=
  handlers.filter fun h => decide (h.priority = priority)

structure StablySorted (added order : List (Handler β)) : Prop where
  ascending : order.Pairwise fun g h => g.priority ≤ h.priority
  kept : ∀ priority, ofPriority priority order = ofPriority priority added

theorem mem_ofPriority {priority : Int} {h : Handler β} :
    h ∈ ofPriority priority added ↔ h ∈ added ∧ h.priority = priority := by
  unfold ofPriority
  rw [List.mem_filter, decide_eq_true_eq]

theorem ofPriority_cons (priority : Int) (h : Handler β) (hs : List (Handler β)) :
    ofPriority priority (h :: hs) =
      if h.priority = priority then h :: ofPriority priority hs else ofPriority priority hs := by
  unfold ofPriority
  rw [List.filter_cons]
  simp only [decide_eq_true_eq]

theorem ofPriority_append (priority : Int) (xs ys : List (Handler β)) :
    ofPriority priority (xs ++ ys) = ofPriority priority xs ++ ofPriority priority ys :=
  List.filter_append ..

theorem ofPriority_ofPriority (priority : Int) (hs : List (Handler β)) :
    ofPriority priority (ofPriority priority hs) = ofPriority priority hs :=
  List.filter_eq_self.mpr fun _ hmem => decide_eq_true (mem_ofPriority.mp hmem).2

theorem mem_iff_of_ofPriority
    (h : ∀ priority, ofPriority priority order = ofPriority priority order') (g : Handler β) :
    g ∈ order ↔ g ∈ order' := by
  have hg : g ∈ ofPriority g.priority order ↔ g ∈ ofPriority g.priority order' := by rw [h]
  rw [mem_ofPriority, mem_ofPriority] at hg
  exact ⟨fun hmem => (hg.mp ⟨hmem, rfl⟩).1, fun hmem => (hg.mpr ⟨hmem, rfl⟩).1⟩

theorem head_le {g h : Handler β}
    (hascending : (g :: order).Pairwise fun g h => g.priority ≤ h.priority)
    (hmem : h ∈ g :: order) : g.priority ≤ h.priority := by
  rcases List.mem_cons.mp hmem with rfl | hmem
  · exact Int.le_refl _
  · exact List.rel_of_pairwise_cons hascending hmem

/-- Two sorted lists with the same handlers of each priority begin with handlers of one priority, so
with the same one. -/
theorem eq_of_ascending (horder : order.Pairwise fun g h => g.priority ≤ h.priority)
    (horder' : order'.Pairwise fun g h => g.priority ≤ h.priority)
    (h : ∀ priority, ofPriority priority order = ofPriority priority order') : order = order' := by
  have hmem := mem_iff_of_ofPriority h
  induction order generalizing order' with
  | nil => exact (List.eq_nil_iff_forall_not_mem.mpr fun g hg => nomatch (hmem g).mpr hg).symm
  | cons g rest ih =>
    cases order' with
    | nil => exact nomatch (hmem g).mp List.mem_cons_self
    | cons g' rest' =>
      have hsame : g'.priority = g.priority :=
        Int.le_antisymm (head_le horder' ((hmem g).mp List.mem_cons_self))
          (head_le horder ((hmem g').mpr List.mem_cons_self))
      have hfirst := h g.priority
      rw [ofPriority_cons, ofPriority_cons, if_pos rfl, if_pos hsame] at hfirst
      obtain rfl := (List.cons.inj hfirst).1
      have hrest : ∀ priority, ofPriority priority rest = ofPriority priority rest' := by
        intro priority
        have hall := h priority
        rw [ofPriority_cons, ofPriority_cons] at hall
        split at hall
        · exact (List.cons.inj hall).2
        · exact hall
      exact congrArg (g :: ·)
        (ih horder.of_cons horder'.of_cons hrest (mem_iff_of_ofPriority hrest))

theorem StablySorted.unique (h : StablySorted added order) (h' : StablySorted added order') :
    order = order' :=
  eq_of_ascending h.ascending h'.ascending fun priority =>
    (h.kept priority).trans (h'.kept priority).symm

theorem stablySorted_sortedByPriority (added : List (Handler β)) :
    StablySorted added (sortedByPriority added) := by
  have htrans : ∀ f g h : Handler β, decide (f.priority ≤ g.priority) = true →
      decide (g.priority ≤ h.priority) = true → decide (f.priority ≤ h.priority) = true := by
    simp only [decide_eq_true_eq]
    exact fun _ _ _ => Int.le_trans
  have htotal : ∀ g h : Handler β,
      (decide (g.priority ≤ h.priority) || decide (h.priority ≤ g.priority)) = true := by
    simp only [Bool.or_eq_true, decide_eq_true_eq]
    exact fun g h => Int.le_total ..
  refine ⟨(List.pairwise_mergeSort htrans htotal added).imp of_decide_eq_true, fun priority => ?_⟩
  -- The handlers of one priority are sorted already, so they stay in their order.
  have hordered :
      (ofPriority priority added).Pairwise fun g h => decide (g.priority ≤ h.priority) := by
    refine List.pairwise_of_forall_mem_list fun g hg h hh => decide_eq_true (Int.le_of_eq ?_)
    rw [(mem_ofPriority.mp hg).2, (mem_ofPriority.mp hh).2]
  have hsublist : (ofPriority priority added).Sublist (sortedByPriority added) :=
    List.sublist_mergeSort htrans htotal hordered List.filter_sublist
  have hkept : (ofPriority priority added).Sublist (ofPriority priority (sortedByPriority added)) :=
    ofPriority_ofPriority priority added ▸ hsublist.filter _
  exact (hkept.eq_of_length ((List.mergeSort_perm added _).filter _).length_eq.symm).symm

theorem StablySorted.push {p : Pipeline β} (h : StablySorted added p.handlers) (g : Handler β) :
    StablySorted (added ++ [g]) (p.push g).handlers := by
  have hsorted := stablySorted_sortedByPriority (p.handlers ++ [g])
  refine ⟨hsorted.ascending, fun priority => ?_⟩
  calc ofPriority priority (sortedByPriority (p.handlers ++ [g]))
      = ofPriority priority p.handlers ++ ofPriority priority [g] := by
        rw [hsorted.kept, ofPriority_append]
    _ = ofPriority priority (added ++ [g]) := by rw [h.kept, ofPriority_append]

theorem StablySorted.pushAll {p : Pipeline β} (h : StablySorted added p.handlers)
    (more : List (Handler β)) : StablySorted (added ++ more) (p.pushAll more).handlers := by
  induction more generalizing added p with
  | nil => exact (List.append_nil added).symm ▸ h
  | cons g more ih => exact List.append_cons added g more ▸ ih (h.push g)

/-- The handlers are added one after the other. -/
def registered (hook : String) (added : List (Handler β)) : Pipeline β :=
  ({ hook } : Pipeline β).pushAll added

theorem stablySorted_registered (hook : String) (added : List (Handler β)) :
    StablySorted added (registered hook added).handlers := by
  have hempty : StablySorted [] ({ hook } : Pipeline β).handlers := ⟨.nil, fun _ => rfl⟩
  exact hempty.pushAll added

theorem hook_pushAll (p : Pipeline β) (added : List (Handler β)) :
    (p.pushAll added).hook = p.hook := by
  induction added generalizing p with
  | nil => rfl
  | cons g rest ih => exact ih (p.push g)

theorem hook_registered (hook : String) (added : List (Handler β)) :
    (registered hook added).hook = hook := hook_pushAll _ added

theorem handlers_registered (hook : String) (added : List (Handler β)) :
    (registered hook added).handlers = sortedByPriority added :=
  (stablySorted_registered hook added).unique (stablySorted_sortedByPriority added)

/-- Pipelines of one hook are equal if the same handlers of each priority were added, in the same
order. -/
theorem registered_eq_iff {hook : String} : registered hook added = registered hook others ↔
    ∀ priority, ofPriority priority added = ofPriority priority others := by
  have hadded := stablySorted_registered hook added
  have hothers := stablySorted_registered hook others
  constructor
  · intro h priority
    rw [← hadded.kept, h, hothers.kept]
  · intro h
    have hhandlers : (registered hook added).handlers = (registered hook others).handlers :=
      hadded.unique
        ⟨hothers.ascending, fun priority => (hothers.kept priority).trans (h priority).symm⟩
    have hhook : (registered hook added).hook = (registered hook others).hook :=
      (hook_registered ..).trans (hook_registered ..).symm
    exact congrArg₂ Pipeline.mk hhook hhandlers

end Pipeline

/-! ## Filters -/

namespace FilterPipeline

variable {κ α : Type} {hook : String} {context : κ} {value reached final : α}
  {handlers before rest after : List (Handler (κ → α → Except StoreError α))}
  {h : Handler (κ → α → Except StoreError α)} {called : List String} {result : Except StoreError α}

/-- Each handler takes what the one before it has made, and none fails. -/
inductive Passes (context : κ) : List (Handler (κ → α → Except StoreError α)) → α → α → Prop
  | nil {value : α} : Passes context [] value value
  | cons {h : Handler (κ → α → Except StoreError α)}
    {rest : List (Handler (κ → α → Except StoreError α))} {value next final : α}
    (hrun : h.run context value = .ok next) (hrest : Passes context rest next final) :
    Passes context (h :: rest) value final

/-- The names of the handlers that are called, and what is reported. -/
inductive Outcome (hook : String) (context : κ)
    (handlers : List (Handler (κ → α → Except StoreError α))) (value : α) :
    List String → Except StoreError α → Prop
  | passed {final : α} (hpasses : Passes context handlers value final) :
    Outcome hook context handlers value (handlers.map (·.name)) (.ok final)
  | ownFailure {before after : List (Handler (κ → α → Except StoreError α))}
    {h : Handler (κ → α → Except StoreError α)} {reached : α} {name reason : String}
    (hsplit : handlers = before ++ h :: after) (hpasses : Passes context before value reached)
    (hfails : h.run context reached = .error (.hook name reason)) :
    Outcome hook context handlers value ((before ++ [h]).map (·.name)) (.error (.hook name reason))
  | failure {before after : List (Handler (κ → α → Except StoreError α))}
    {h : Handler (κ → α → Except StoreError α)} {reached : α} {e : StoreError}
    (hsplit : handlers = before ++ h :: after) (hpasses : Passes context before value reached)
    (hfails : h.run context reached = .error e) (hother : ∀ name reason, e ≠ .hook name reason) :
    Outcome hook context handlers value ((before ++ [h]).map (·.name))
      (.error (.hook hook (h.name ++ ": " ++ e.message)))

theorem passes_or_fails (context : κ) (handlers : List (Handler (κ → α → Except StoreError α)))
    (value : α) : (∃ final, Passes context handlers value final) ∨
      ∃ before h after reached e, handlers = before ++ h :: after ∧
        Passes context before value reached ∧ h.run context reached = .error e := by
  induction handlers generalizing value with
  | nil => exact .inl ⟨value, .nil⟩
  | cons h rest ih =>
    cases hrun : h.run context value with
    | error e => exact .inr ⟨[], h, rest, value, e, rfl, .nil, hrun⟩
    | ok next =>
      rcases ih next with ⟨final, hpasses⟩ | ⟨before, g, after, reached, e, rfl, hpasses, hfails⟩
      · exact .inl ⟨final, .cons hrun hpasses⟩
      · exact .inr ⟨h :: before, g, after, reached, e, rfl, .cons hrun hpasses, hfails⟩

/-- Behind handlers that do not fail, the others go on with what these have made. -/
theorem applyAll_append (hpasses : Passes context before value reached) :
    applyAll hook context (before ++ rest) value =
      (before.map (·.name) ++ (applyAll hook context rest reached).1,
        (applyAll hook context rest reached).2) := by
  induction hpasses with
  | nil => rfl
  | cons hrun _ ih =>
    rw [List.cons_append, applyAll, hrun]
    simp only [ih]
    rfl

theorem applyAll_of_passes (hpasses : Passes context handlers value final) :
    applyAll hook context handlers value = (handlers.map (·.name), .ok final) := by
  have happlied : applyAll hook context (handlers ++ []) value = _ := applyAll_append hpasses
  rw [List.append_nil] at happlied
  exact happlied.trans (Prod.ext (List.append_nil _) rfl)

theorem applyAll_of_fails (hpasses : Passes context before value reached) {e : StoreError}
    (hfails : h.run context reached = .error e) :
    applyAll hook context (before ++ h :: after) value =
      ((before ++ [h]).map (·.name), .error (tagged hook h.name e)) := by
  rw [applyAll_append hpasses, applyAll, hfails, List.map_append]
  rfl

theorem tagged_of_ne {handler : String} {e : StoreError}
    (hother : ∀ name reason, e ≠ .hook name reason) :
    tagged hook handler e = .hook hook (handler ++ ": " ++ e.message) := by
  cases e with
  | hook name reason => exact absurd rfl (hother name reason)
  | _ => rfl

theorem applyAll_eq_iff : applyAll hook context handlers value = (called, result) ↔
    Outcome hook context handlers value called result := by
  constructor
  · intro happlied
    rcases passes_or_fails context handlers value with
      ⟨final, hpasses⟩ | ⟨before, h, after, reached, e, rfl, hpasses, hfails⟩
    · obtain ⟨rfl, rfl⟩ := Prod.mk.inj ((applyAll_of_passes hpasses).symm.trans happlied)
      exact .passed hpasses
    · obtain ⟨rfl, rfl⟩ := Prod.mk.inj ((applyAll_of_fails hpasses hfails).symm.trans happlied)
      by_cases hown : ∃ name reason, e = .hook name reason
      · obtain ⟨name, reason, rfl⟩ := hown
        exact .ownFailure rfl hpasses hfails
      · have hother : ∀ name reason, e ≠ .hook name reason := fun n r he => hown ⟨n, r, he⟩
        rw [tagged_of_ne hother]
        exact .failure rfl hpasses hfails hother
  · rintro (hpasses | ⟨rfl, hpasses, hfails⟩ | ⟨rfl, hpasses, hfails, hother⟩)
    · exact applyAll_of_passes hpasses
    · exact applyAll_of_fails hpasses hfails
    · rw [applyAll_of_fails hpasses hfails, tagged_of_ne hother]

end FilterPipeline

/-! ## Events -/

namespace EventPipeline

variable {ε : Type} {hook : String} {event : ε}
  {handlers before rest after : List (Handler (ε → Except StoreError Unit))}
  {h : Handler (ε → Except StoreError Unit)} {called : List String}
  {result : Except StoreError Unit}

/-- The names of the handlers that are told of the event, and what is reported. -/
inductive Outcome (hook : String) (event : ε)
    (handlers : List (Handler (ε → Except StoreError Unit))) :
    List String → Except StoreError Unit → Prop
  | passed (hpass : ∀ h ∈ handlers, h.run event = .ok ()) :
    Outcome hook event handlers (handlers.map (·.name)) (.ok ())
  | failure {before after : List (Handler (ε → Except StoreError Unit))}
    {h : Handler (ε → Except StoreError Unit)} {e : StoreError}
    (hsplit : handlers = before ++ h :: after) (hpass : ∀ g ∈ before, g.run event = .ok ())
    (hfails : h.run event = .error e) :
    Outcome hook event handlers ((before ++ [h]).map (·.name))
      (.error (.hook hook (h.name ++ ": " ++ e.message)))

theorem pass_or_fails (event : ε) (handlers : List (Handler (ε → Except StoreError Unit))) :
    (∀ h ∈ handlers, h.run event = .ok ()) ∨
      ∃ before h after e, handlers = before ++ h :: after ∧ (∀ g ∈ before, g.run event = .ok ()) ∧
        h.run event = .error e := by
  induction handlers with
  | nil => exact .inl nofun
  | cons h rest ih =>
    cases hrun : h.run event with
    | error e => exact .inr ⟨[], h, rest, e, rfl, nofun, hrun⟩
    | ok _ =>
      rcases ih with hpass | ⟨before, g, after, e, rfl, hpass, hfails⟩
      · exact .inl (List.forall_mem_cons.mpr ⟨hrun, hpass⟩)
      · exact .inr ⟨h :: before, g, after, e, rfl, List.forall_mem_cons.mpr ⟨hrun, hpass⟩, hfails⟩

theorem triggerAll_append (hpass : ∀ g ∈ before, g.run event = .ok ()) :
    triggerAll hook event (before ++ rest) =
      (before.map (·.name) ++ (triggerAll hook event rest).1, (triggerAll hook event rest).2) := by
  induction before with
  | nil => rfl
  | cons g before ih =>
    obtain ⟨hrun, hpass⟩ := List.forall_mem_cons.mp hpass
    rw [List.cons_append, triggerAll, hrun]
    simp only [ih hpass]
    rfl

theorem triggerAll_of_pass (hpass : ∀ g ∈ handlers, g.run event = .ok ()) :
    triggerAll hook event handlers = (handlers.map (·.name), .ok ()) := by
  have htriggered : triggerAll hook event (handlers ++ []) = _ := triggerAll_append hpass
  rw [List.append_nil] at htriggered
  exact htriggered.trans (Prod.ext (List.append_nil _) rfl)

theorem triggerAll_of_fails (hpass : ∀ g ∈ before, g.run event = .ok ()) {e : StoreError}
    (hfails : h.run event = .error e) :
    triggerAll hook event (before ++ h :: after) =
      ((before ++ [h]).map (·.name), .error (.hook hook (h.name ++ ": " ++ e.message))) := by
  rw [triggerAll_append hpass, triggerAll, hfails, List.map_append]
  rfl

theorem triggerAll_eq_iff : triggerAll hook event handlers = (called, result) ↔
    Outcome hook event handlers called result := by
  constructor
  · intro htriggered
    rcases pass_or_fails event handlers with hpass | ⟨before, h, after, e, rfl, hpass, hfails⟩
    · obtain ⟨rfl, rfl⟩ := Prod.mk.inj ((triggerAll_of_pass hpass).symm.trans htriggered)
      exact .passed hpass
    · obtain ⟨rfl, rfl⟩ := Prod.mk.inj ((triggerAll_of_fails hpass hfails).symm.trans htriggered)
      exact .failure rfl hpass hfails
  · rintro (hpass | ⟨rfl, hpass, hfails⟩)
    · exact triggerAll_of_pass hpass
    · exact triggerAll_of_fails hpass hfails

end EventPipeline

/-! ## Both -/

/-- However the handlers of a hook were added: they stand in their one stable order, which depends
on nothing but the order of addition within each priority, and both filters and listeners are called
in it up to the first that fails. -/
theorem handlers_in_priority_order {β κ α ε : Type} (hook : String) (added : List (Handler β))
    (filters : List (Handler (κ → α → Except StoreError α)))
    (listeners : List (Handler (ε → Except StoreError Unit))) :
    (Pipeline.registered hook added).handlers = Pipeline.sortedByPriority added ∧
    (∀ order, Pipeline.StablySorted added order ↔ order = Pipeline.sortedByPriority added) ∧
    (∀ others, Pipeline.registered hook added = Pipeline.registered hook others ↔
      ∀ priority, Pipeline.ofPriority priority added = Pipeline.ofPriority priority others) ∧
    (∀ context value called result,
      (FilterPipeline.trace (Pipeline.registered hook filters) context value = (called, result) ↔
        FilterPipeline.Outcome hook context (Pipeline.sortedByPriority filters) value called
          result) ∧
      FilterPipeline.apply (Pipeline.registered hook filters) context value =
        (FilterPipeline.trace (Pipeline.registered hook filters) context value).2) ∧
    ∀ event called result,
      EventPipeline.trigger (Pipeline.registered hook listeners) event = (called, result) ↔
        EventPipeline.Outcome hook event (Pipeline.sortedByPriority listeners) called result := by
  refine ⟨Pipeline.handlers_registered hook added, fun order => ⟨fun h => ?_, ?_⟩,
    fun others => Pipeline.registered_eq_iff, fun context value called result => ⟨?_, rfl⟩,
    fun event called result => ?_⟩
  · exact h.unique (Pipeline.stablySorted_sortedByPriority added)
  · rintro rfl
    exact Pipeline.stablySorted_sortedByPriority added
  · unfold FilterPipeline.trace
    rw [Pipeline.handlers_registered, Pipeline.hook_registered]
    exact FilterPipeline.applyAll_eq_iff
  · unfold EventPipeline.trigger
    rw [Pipeline.handlers_registered, Pipeline.hook_registered]
    exact EventPipeline.triggerAll_eq_iff

end ContentTables
