import ContentTables.Json.Record
import ContentTables.Proofs.Json.ReadBack

/-!
# How deep values nest

Nothing but its depth keeps a printed value from being read back.

* `Json.exists_readBack_iff` : a value is read back if it nests no deeper than the limit;
* `Document.Within` : the documents that a parser with that limit returns;
* `Document.Within.depth_le`, `Document.Within.record?` : their values nest no deeper, and the
  fields of a record one level less.
-/

namespace ContentTables

namespace Json

theorem depthFields_le_iff {fs : List (String × Json)} {k : Nat} :
    depthFields fs ≤ k ↔ ∀ f ∈ fs, f.2.depth ≤ k := by
  induction fs with
  | nil => simp [depthFields]
  | cons f fs ih => rw [depthFields, Nat.max_le, ih, List.forall_mem_cons]

mutual

theorem exists_readBack : ∀ (v : Json) {k : Nat}, v.depth ≤ k → ∃ w, v.readBack? k = some w
  | .null, k, _ => ⟨null, (readBack?_scalar k).1⟩
  | .bool b, k, _ => ⟨bool b, (readBack?_scalar k).2.1 b⟩
  | .str s, k, _ => ⟨str s, (readBack?_scalar k).2.2 s⟩
  | .num n, k, _ => by
    obtain ⟨m, hm⟩ := n.exists_readBack
    exact ⟨num m, by rw [readBack?_number, hm, Option.map_some]⟩
  | .arr items, k, h => by
    obtain ⟨j, rfl⟩ : ∃ j, k = j + 1 := Nat.exists_eq_succ_of_ne_zero (Nat.ne_of_gt (by
      rw [depth] at h
      omega))
    obtain ⟨ws, hws⟩ := exists_readsBackItems items (Nat.le_of_succ_le_succ h)
    exact ⟨arr ws, readBack?_arr.mpr ⟨ws, hws, rfl⟩⟩
  | .obj fields, k, h => by
    obtain ⟨j, rfl⟩ : ∃ j, k = j + 1 := Nat.exists_eq_succ_of_ne_zero (Nat.ne_of_gt (by
      rw [depth] at h
      omega))
    obtain ⟨gs, hgs⟩ := exists_readsBackFields fields (Nat.le_of_succ_le_succ h)
    exact ⟨obj (ofPairs gs), readBack?_obj.mpr ⟨gs, hgs, rfl⟩⟩

theorem exists_readsBackItems : ∀ (vs : List Json) {k : Nat}, depthItems vs ≤ k →
    ∃ ws, ReadsBackItems k vs ws
  | [], _, _ => ⟨[], .nil⟩
  | v :: vs, k, h => by
    obtain ⟨hv, hvs⟩ := Nat.max_le.mp h
    obtain ⟨w, hw⟩ := exists_readBack v hv
    obtain ⟨ws, hws⟩ := exists_readsBackItems vs hvs
    exact ⟨w :: ws, .cons hw hws⟩

theorem exists_readsBackFields : ∀ (fs : List (String × Json)) {k : Nat}, depthFields fs ≤ k →
    ∃ gs, ReadsBackFields k fs gs
  | [], _, _ => ⟨[], .nil⟩
  | (name, v) :: fs, k, h => by
    obtain ⟨hv, hfs⟩ := Nat.max_le.mp h
    obtain ⟨w, hw⟩ := exists_readBack v hv
    obtain ⟨gs, hgs⟩ := exists_readsBackFields fs hfs
    exact ⟨(name, w) :: gs, .cons ⟨rfl, hw⟩ hgs⟩

end

mutual

theorem depth_le_of_readBack? : ∀ (v : Json) {k : Nat} {w : Json}, v.readBack? k = some w →
    v.depth ≤ k
  | .null, _, _, _ => Nat.zero_le _
  | .bool _, _, _, _ => Nat.zero_le _
  | .str _, _, _, _ => Nat.zero_le _
  | .num _, _, _, _ => Nat.zero_le _
  | .arr _, 0, _, h => nomatch h
  | .arr items, _ + 1, _, h => by
    obtain ⟨_, hitems, _⟩ := readBack?_arr.mp h
    exact Nat.succ_le_succ (depthItems_le_of_readsBack items hitems)
  | .obj _, 0, _, h => nomatch h
  | .obj fields, _ + 1, _, h => by
    obtain ⟨_, hfields, _⟩ := readBack?_obj.mp h
    exact Nat.succ_le_succ (depthFields_le_of_readsBack fields hfields)

theorem depthItems_le_of_readsBack : ∀ (vs : List Json) {k : Nat} {ws : List Json},
    ReadsBackItems k vs ws → depthItems vs ≤ k
  | [], _, _, _ => Nat.zero_le _
  | v :: vs, _, _, .cons hv hvs =>
    Nat.max_le.mpr ⟨depth_le_of_readBack? v hv, depthItems_le_of_readsBack vs hvs⟩

theorem depthFields_le_of_readsBack : ∀ (fs : List (String × Json)) {k : Nat}
    {gs : List (String × Json)}, ReadsBackFields k fs gs → depthFields fs ≤ k
  | [], _, _, _ => Nat.zero_le _
  | (_, v) :: fs, _, _, .cons hv hfs =>
    Nat.max_le.mpr ⟨depth_le_of_readBack? v hv.2, depthFields_le_of_readsBack fs hfs⟩

end

theorem exists_readBack_iff {v : Json} {k : Nat} : (∃ w, v.readBack? k = some w) ↔ v.depth ≤ k :=
  ⟨fun ⟨_, h⟩ => depth_le_of_readBack? v h, exists_readBack v⟩

end Json

namespace Document

/-! ## Documents of limited depth -/

/-- What is nested deeper is marked in the document. -/
def Within (k : Nat) (d : Document) : Prop := ∃ whole : Document, whole.limitDepth k = d

theorem within_parse? {s : String} {d : Document} (h : parse? s = some d) :
    d.Within depthLimit := by
  unfold parse? parseChars? at h
  split at h
  · split at h
    · exact ⟨_, Option.some.inj h⟩
    · exact nomatch h
  · exact nomatch h

theorem limitDepthItems_eq_map (k : Nat) (ds : List Document) :
    limitDepthItems k ds = ds.map (limitDepth k) := by
  induction ds with
  | nil => rfl
  | cons d ds ih => rw [limitDepthItems, ih, List.map_cons]

theorem limitDepthFields_eq_map (k : Nat) (fs : List (Option String × Document)) :
    limitDepthFields k fs = fs.map fun f => (f.1, f.2.limitDepth k) := by
  induction fs with
  | nil => rfl
  | cons f fs ih => rw [limitDepthFields, ih, List.map_cons]

/-- The parts of an array or an object nest one level less. -/
theorem Within.arr {k : Nat} {items : List Document} (h : (Document.arr items).Within k) :
    ∃ j, k = j + 1 ∧ ∀ d ∈ items, d.Within j := by
  obtain ⟨whole, hwhole⟩ := h
  cases whole with
  | arr ds =>
    cases k with
    | zero => exact nomatch hwhole
    | succ j =>
      rw [limitDepth, limitDepthItems_eq_map] at hwhole
      obtain rfl : ds.map (limitDepth j) = items := by injection hwhole
      refine ⟨j, rfl, fun d hd => ?_⟩
      obtain ⟨whole, _, hd⟩ := List.mem_map.mp hd
      exact ⟨whole, hd⟩
  | _ => cases k <;> exact nomatch hwhole

theorem Within.obj {k : Nat} {fields : List (Option String × Document)}
    (h : (Document.obj fields).Within k) : ∃ j, k = j + 1 ∧ ∀ f ∈ fields, f.2.Within j := by
  obtain ⟨whole, hwhole⟩ := h
  cases whole with
  | obj fs =>
    cases k with
    | zero => exact nomatch hwhole
    | succ j =>
      rw [limitDepth, limitDepthFields_eq_map] at hwhole
      obtain rfl : fs.map (fun f => (f.1, f.2.limitDepth j)) = fields := by injection hwhole
      refine ⟨j, rfl, fun f hf => ?_⟩
      obtain ⟨whole, _, rfl⟩ := List.mem_map.mp hf
      exact ⟨whole.2, rfl⟩
  | _ => cases k <;> exact nomatch hwhole

mutual

theorem Within.depth_le : ∀ {d : Document} {k : Nat} {v : Json}, d.Within k → d.value? = some v →
    v.depth ≤ k
  | .null, k, _, _, h => by cases h; exact Nat.zero_le k
  | .bool _, k, _, _, h => by cases h; exact Nat.zero_le k
  | .num _, k, _, _, h => by cases h; exact Nat.zero_le k
  | .str _, k, _, _, h => by cases h; exact Nat.zero_le k
  | .unreadable, _, _, _, h => nomatch h
  | .arr ds, k, v, hd, h => by
    obtain ⟨vs, hvs, rfl⟩ := Option.map_eq_some_iff.mp h
    obtain ⟨j, rfl, hitems⟩ := hd.arr
    exact Nat.succ_le_succ (depthItems_le hitems hvs)
  | .obj fs, k, v, hd, h => by
    obtain ⟨gs, hgs, rfl⟩ := Option.map_eq_some_iff.mp h
    obtain ⟨j, rfl, hfields⟩ := hd.obj
    have hle := Json.depthFields_le_iff.mp (depthFields_le hfields hgs)
    exact Nat.succ_le_succ (Json.depthFields_le_iff.mpr fun f hf => hle f (mem_of_mem_ofPairs hf))

theorem depthItems_le : ∀ {ds : List Document} {k : Nat} {vs : List Json},
    (∀ d ∈ ds, d.Within k) → values? ds = some vs → Json.depthItems vs ≤ k
  | [], k, _, _, h => by cases h; exact Nat.zero_le k
  | d :: ds, k, vs, hds, h => by
    simp only [values?, Option.bind_eq_bind, Option.bind_eq_some_iff, Option.some_inj] at h
    obtain ⟨v, hv, ws, hws, rfl⟩ := h
    obtain ⟨hd, hrest⟩ := List.forall_mem_cons.mp hds
    exact Nat.max_le.mpr ⟨hd.depth_le hv, depthItems_le hrest hws⟩

theorem depthFields_le : ∀ {fs : List (Option String × Document)} {k : Nat}
    {gs : List (String × Json)}, (∀ f ∈ fs, f.2.Within k) → fieldValues? fs = some gs →
    Json.depthFields gs ≤ k
  | [], k, _, _, h => by cases h; exact Nat.zero_le k
  | (none, _) :: _, _, _, _, h => nomatch h
  | (some name, d) :: fs, k, gs, hfs, h => by
    simp only [fieldValues?, Option.bind_eq_bind, Option.bind_eq_some_iff, Option.some_inj] at h
    obtain ⟨v, hv, hs, hhs, rfl⟩ := h
    obtain ⟨hd, hrest⟩ := List.forall_mem_cons.mp hfs
    exact Nat.max_le.mpr ⟨hd.depth_le hv, depthFields_le hrest hhs⟩

end

theorem exists_of_mapM_eq_some {α β : Type} {f : α → Option β} {l : List α} {bs : List β}
    (h : l.mapM f = some bs) : ∀ b ∈ bs, ∃ a ∈ l, f a = some b := by
  induction l generalizing bs with
  | nil =>
    cases h
    exact nofun
  | cons a l ih =>
    simp only [List.mapM_cons, Option.bind_eq_bind, Option.bind_eq_some_iff, Option.pure_def,
      Option.some_inj] at h
    obtain ⟨b, hb, bs, hbs, rfl⟩ := h
    refine List.forall_mem_cons.mpr ⟨⟨a, List.mem_cons_self, hb⟩, fun c hc => ?_⟩
    obtain ⟨a', ha', hc'⟩ := ih hbs c hc
    exact ⟨a', List.mem_cons_of_mem a ha', hc'⟩

theorem mem_of_single? {name : String} {fields : List (Option String × Document)} {d : Document}
    (h : single? name fields = some (some d)) : (some name, d) ∈ fields := by
  unfold single? at h
  split at h
  · cases h
  · rename_i n d' hfilter
    obtain rfl : d' = d := Option.some.inj (Option.some.inj h)
    have hmem : (n, d') ∈ [(n, d')] := List.mem_singleton_self _
    rw [← hfilter] at hmem
    obtain ⟨hmem, hname⟩ := List.mem_filter.mp hmem
    rwa [beq_iff_eq.mp hname] at hmem
  · cases h

/-- The fields of a record nest one level less. -/
theorem Within.record? {k : Nat} {d : Document} {names : List String}
    {fields : List (Option Document)} (hd : d.Within k) (h : d.record? names = some fields) :
    ∃ j, k = j + 1 ∧ ∀ field ∈ fields, ∀ d ∈ field, d.Within j := by
  unfold Document.record? at h
  split at h
  · split at h
    · exact nomatch h
    · obtain ⟨j, rfl, hparts⟩ := hd.obj
      refine ⟨j, rfl, fun field hfield d hmem => ?_⟩
      obtain rfl := Option.mem_def.mp hmem
      obtain ⟨name, _, hsingle⟩ := exists_of_mapM_eq_some h _ hfield
      exact hparts _ (mem_of_single? hsingle)
  · split at h
    · obtain ⟨j, rfl, hparts⟩ := hd.arr
      obtain rfl := Option.some.inj h
      refine ⟨j, rfl, fun field hfield d hmem => ?_⟩
      obtain rfl := Option.mem_def.mp hmem
      rcases List.mem_append.mp hfield with hfield | hfield
      · obtain ⟨item, hitem, hsame⟩ := List.mem_map.mp hfield
        obtain rfl := Option.some.inj hsame
        exact hparts item hitem
      · exact nomatch List.eq_of_mem_replicate hfield
    · exact nomatch h
  · exact nomatch h

end Document

end ContentTables
