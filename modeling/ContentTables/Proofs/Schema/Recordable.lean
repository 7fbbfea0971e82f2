import ContentTables.Proofs.Json.Depth
import ContentTables.Proofs.Schema.ReadBack

/-!
# Schemas that can be recorded

Every schema can be written, but a default that nests too deep could not be read again.

* `TableSchema.Recordable` : the defaults nest no deeper than the reader goes, and repeat no name;
* `TableSchema.recordable_iff` : such schemas are read back, and no others;
* `TableSchema.recordable_of_parse?` : every schema that was itself read from a text is one.
-/

namespace ContentTables

namespace Column

/-- The schema and the column around a default take two levels of what the reader allows. -/
def defaultDepth : Nat := Document.depthLimit - 2

def Recordable (c : Column) : Prop := ∀ v ∈ c.default, v.Distinct ∧ v.depth ≤ defaultDepth

theorem Recordable.distinct {c : Column} (h : c.Recordable) : c.Distinct :=
  fun v hv => (h v hv).1

theorem Recordable.exists_readBack {c : Column} (h : c.Recordable) :
    ∃ d, c.readBack? = some d := by
  have hdefault : ∃ o, readDefault? c.default = some o := by
    cases hc : c.default with
    | none => exact ⟨none, rfl⟩
    | some v =>
      unfold readDefault?
      simp only
      split
      · exact ⟨none, rfl⟩
      · obtain ⟨w, hw⟩ := Json.exists_readBack_iff.mpr (h v hc).2
        exact ⟨some w, by rw [show (125 : Nat) = defaultDepth from rfl, hw, Option.map_some]⟩
  obtain ⟨o, ho⟩ := hdefault
  exact ⟨_, by rw [readBack?_eq, ho, Option.map_some]⟩

theorem recordable_of_readBack? {c d : Column} (hdistinct : c.Distinct)
    (h : c.readBack? = some d) : c.Recordable := by
  intro v hv
  refine ⟨hdistinct v hv, ?_⟩
  rw [readBack?_eq, Option.mem_def.mp hv] at h
  obtain ⟨o, hread, _⟩ := Option.map_eq_some_iff.mp h
  unfold readDefault? at hread
  simp only at hread
  split at hread
  · rename_i hnull
    cases v <;> first | exact Nat.zero_le _ | exact nomatch hnull
  · obtain ⟨w, hw, _⟩ := Option.map_eq_some_iff.mp hread
    exact Json.exists_readBack_iff.mp ⟨w, hw⟩

theorem recordable_of_isScalar {c : Column} (h : c.default.all Json.isScalar = true) :
    c.Recordable := by
  intro v hv
  rw [Option.mem_def.mp hv] at h
  cases v with
  | arr | obj => exact nomatch h
  | _ => exact ⟨trivial, Nat.zero_le _⟩

theorem recordable_of_read? {k : Nat} (hk : k ≤ defaultDepth + 1) {d : Document}
    (hd : d.Within k) {c : Column} (h : read? d = some c) : c.Recordable := by
  intro v hv
  refine ⟨distinct_of_read? h v hv, ?_⟩
  unfold read? at h
  split at h
  · rename_i hrecord
    obtain ⟨j, rfl, hfields⟩ := hd.record? hrecord
    simp only [Option.bind_eq_bind, Option.bind_eq_some_iff, Option.some_inj] at h
    obtain ⟨_, _, _, _, _, _, _, _, _, _, _, _, o, hread, _, _, _, _, rfl⟩ := h
    obtain rfl : o = some v := hv
    unfold Document.optional at hread
    split at hread
    · cases hread
    · cases hread
    · rename_i d' _
      obtain ⟨w, hw, hsame⟩ := Option.map_eq_some_iff.mp hread
      obtain rfl := Option.some.inj hsame
      have hwithin : d'.Within j := hfields (some d') (by simp) d' rfl
      exact (hwithin.depth_le hw).trans (by omega)
  · cases h

end Column

namespace TableSchema

open OrderedMap

def Recordable (s : TableSchema) : Prop := ∀ name c, s.get? name = some c → c.Recordable

theorem Recordable.distinct {s : TableSchema} (h : s.Recordable) : s.Distinct :=
  fun name c hget => (h name c hget).distinct

theorem Recordable.exists_parse {s : TableSchema} (h : s.Recordable) :
    ∃ t, parse? s.text = some t := by
  obtain ⟨es, hes⟩ : ∃ es, ReadsBackColumns s.entries es := Paired.exists_right fun e he =>
    (h e.1 e.2 (get?_eq_some_iff.mpr he)).exists_readBack
  have hnodup : (namesOf es).Nodup := hes.namesOf_eq ▸ s.distinct
  exact ⟨⟨es, hnodup⟩, parse?_text_eq_some_iff.mpr hes⟩

/-- Schemas whose defaults repeat no name are recordable if what is recorded can be read. -/
theorem recordable_iff {s : TableSchema} (h : s.Distinct) :
    s.Recordable ↔ ∃ t, parse? s.text = some t := by
  refine ⟨Recordable.exists_parse, ?_⟩
  rintro ⟨t, ht⟩ name c hget
  obtain ⟨d, _, hread⟩ := (parse?_text_eq_some_iff.mp ht).lookup hget
  exact Column.recordable_of_readBack? (h name c hget) hread

theorem recordable_of_scalars {s : TableSchema}
    (h : (s.entries.all fun e => e.2.default.all Json.isScalar) = true) : s.Recordable :=
  fun name c hget => Column.recordable_of_isScalar
    (List.all_eq_true.mp h (name, c) (get?_eq_some_iff.mp hget))

theorem recordable_of_parse? {text : String} {s : TableSchema} (h : parse? text = some s) :
    s.Recordable := by
  have hcolumns : ∀ fs cs, (∀ f ∈ fs, f.2.Within (Column.defaultDepth + 1)) →
      readColumns? fs = some cs → ∀ e ∈ cs, e.2.Recordable := by
    intro fs
    induction fs with
    | nil =>
      rintro cs _ ⟨⟩ e he
      exact absurd he List.not_mem_nil
    | cons f fs ih =>
      intro cs hfs hcs
      obtain ⟨_ | name, d⟩ := f
      · cases hcs
      · simp only [readColumns?, Option.bind_eq_bind, Option.bind_eq_some_iff,
          Option.some_inj] at hcs
        obtain ⟨c, hc, cs, hcs, rfl⟩ := hcs
        obtain ⟨hd, hrest⟩ := List.forall_mem_cons.mp hfs
        rw [List.forall_mem_cons]
        exact ⟨Column.recordable_of_read? (Nat.le_refl _) hd hc, ih cs hrest hcs⟩
  obtain ⟨d, hd, hread⟩ := Option.bind_eq_some_iff.mp h
  have hwithin := Document.within_parse? hd
  unfold read? at hread
  split at hread
  · obtain ⟨j, hj, hparts⟩ := hwithin.obj
    obtain rfl : j = Column.defaultDepth + 1 := Nat.succ.inj (hj.symm.trans rfl)
    obtain ⟨cs, hcs, rfl⟩ := Option.map_eq_some_iff.mp hread
    intro name c hget
    exact hcolumns _ cs hparts hcs (name, c) (mem_of_mem_ofPairs (get?_eq_some_iff.mp hget))
  · cases hread

theorem Stable.recordable {s : TableSchema} (h : s.Stable) : s.Recordable := recordable_of_parse? h

end TableSchema

end ContentTables
