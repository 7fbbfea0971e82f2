import ContentTables.OrderedMap
import Mathlib.Data.List.Forall2

/-!
# Association lists, entry by entry

* `ofPairs_of_nodup`, `mem_of_mem_ofPairs` : putting entries one after the other changes nothing
  where no name is repeated, and adds nothing;
* `OrderedMap.eq_of_get?` : a map is the order of its names and what it has under each of them;
* `Paired` : two lists have the same names in the same order, and their values are related;
* `Paired.lookup`, `Paired.lookup_right` : so are the values under one name.
-/

namespace ContentTables

variable {α β : Type}

theorem namesOf_append (entries others : List (String × α)) :
    namesOf (entries ++ others) = namesOf entries ++ namesOf others := List.map_append

theorem putEntry_of_fresh {name : String} {value : α} {entries : List (String × α)}
    (h : name ∉ namesOf entries) : putEntry name value entries = entries ++ [(name, value)] := by
  induction entries with
  | nil => rfl
  | cons e rest ih =>
    obtain ⟨hname, hrest⟩ := not_or.mp (mt List.mem_cons.mpr h)
    rw [putEntry, if_neg fun h => hname h.symm, ih hrest]
    rfl

theorem ofPairs_of_nodup {pairs : List (String × α)} (h : (namesOf pairs).Nodup) :
    ofPairs pairs = pairs := by
  have hstep : ∀ (rest entries : List (String × α)), (namesOf (entries ++ rest)).Nodup →
      rest.foldl (fun entries e => putEntry e.1 e.2 entries) entries = entries ++ rest := by
    intro rest
    induction rest with
    | nil => exact fun entries _ => (List.append_nil entries).symm
    | cons e rest ih =>
      intro entries hnodup
      obtain ⟨name, value⟩ := e
      have hfresh : name ∉ namesOf entries := by
        rw [namesOf_append] at hnodup
        exact fun hmem => (List.nodup_append.mp hnodup).2.2 _ hmem _ List.mem_cons_self rfl
      have hassoc : entries ++ (name, value) :: rest = (entries ++ [(name, value)]) ++ rest := by
        simp
      show rest.foldl _ (putEntry name value entries) = _
      rw [putEntry_of_fresh hfresh, ih _ (hassoc ▸ hnodup), hassoc]
  exact hstep pairs [] h

theorem mem_of_mem_putEntry {name : String} {value : α} {entries : List (String × α)}
    {e : String × α} (h : e ∈ putEntry name value entries) : e = (name, value) ∨ e ∈ entries := by
  induction entries with
  | nil => exact Or.inl (List.mem_singleton.mp h)
  | cons first rest ih =>
    unfold putEntry at h
    split at h
    · exact (List.mem_cons.mp h).imp_right (List.mem_cons_of_mem _)
    · rcases List.mem_cons.mp h with rfl | h
      · exact Or.inr List.mem_cons_self
      · exact (ih h).imp_right (List.mem_cons_of_mem _)

theorem mem_of_mem_ofPairs {pairs : List (String × α)} {e : String × α} (h : e ∈ ofPairs pairs) :
    e ∈ pairs := by
  have hstep : ∀ (rest entries : List (String × α)),
      e ∈ rest.foldl (fun entries p => putEntry p.1 p.2 entries) entries →
        e ∈ entries ∨ e ∈ rest := by
    intro rest
    induction rest with
    | nil => exact fun _ h => Or.inl h
    | cons first rest ih =>
      intro entries h
      rcases ih _ h with h | h
      · rcases mem_of_mem_putEntry h with rfl | h
        · exact Or.inr List.mem_cons_self
        · exact Or.inl h
      · exact Or.inr (List.mem_cons_of_mem _ h)
  exact (hstep pairs [] h).resolve_left List.not_mem_nil

theorem OrderedMap.eq_of_get? {m n : OrderedMap α} (hnames : m.names = n.names)
    (h : ∀ name ∈ m.names, m.get? name = n.get? name) : m = n := by
  have hlength : m.entries.length = n.entries.length := by
    simpa [names, namesOf] using congrArg List.length hnames
  refine ext (List.ext_getElem hlength fun i hi hi' => ?_)
  have hname : m.entries[i].1 = n.entries[i].1 := by
    have hsame := List.getElem_of_eq hnames (i := i) (by simpa [names, namesOf] using hi)
    simpa [names, namesOf] using hsame
  have hm : m.get? m.entries[i].1 = some m.entries[i].2 :=
    get?_eq_some_iff.mpr (List.getElem_mem hi)
  have hn : n.get? n.entries[i].1 = some n.entries[i].2 :=
    get?_eq_some_iff.mpr (List.getElem_mem hi')
  rw [h _ (List.mem_map_of_mem (List.getElem_mem hi)), hname, hn] at hm
  exact Prod.ext hname (Option.some.inj hm).symm

/-! ## Two lists side by side -/

def Paired (R : α → β → Prop) : List (String × α) → List (String × β) → Prop :=
  List.Forall₂ fun e f => e.1 = f.1 ∧ R e.2 f.2

namespace Paired

variable {R : α → β → Prop} {es : List (String × α)} {fs : List (String × β)} {name : String}

theorem namesOf_eq (h : Paired R es fs) : namesOf es = namesOf fs := by
  induction h with
  | nil => rfl
  | cons hentry _ ih => exact congrArg₂ List.cons hentry.1 ih

theorem lookup {v : α} (h : Paired R es fs) (hv : es.lookup name = some v) :
    ∃ w, fs.lookup name = some w ∧ R v w := by
  induction h with
  | nil => exact nomatch hv
  | @cons e f _ _ hentry _ ih =>
    obtain ⟨n, v'⟩ := e
    obtain ⟨n', w⟩ := f
    obtain ⟨hname, hR⟩ := hentry
    obtain rfl : n = n' := hname
    rw [lookup_cons_eq] at hv ⊢
    split at hv
    · rename_i hn
      cases hv
      exact ⟨w, if_pos hn, hR⟩
    · rename_i hn
      rw [if_neg hn]
      exact ih hv

theorem exists_right (h : ∀ e ∈ es, ∃ w, R e.2 w) : ∃ fs, Paired R es fs := by
  induction es with
  | nil => exact ⟨[], .nil⟩
  | cons e es ih =>
    obtain ⟨⟨w, hw⟩, hrest⟩ := List.forall_mem_cons.mp h
    obtain ⟨fs, hfs⟩ := ih hrest
    exact ⟨(e.1, w) :: fs, .cons ⟨rfl, hw⟩ hfs⟩

theorem flip (h : Paired R es fs) : Paired (fun w v => R v w) fs es :=
  List.Forall₂.flip (h.imp fun _ _ hentry => ⟨hentry.1.symm, hentry.2⟩)

theorem lookup_right {w : β} (h : Paired R es fs) (hw : fs.lookup name = some w) :
    ∃ v, es.lookup name = some v ∧ R v w := h.flip.lookup hw

end Paired

end ContentTables
