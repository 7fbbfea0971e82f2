import ContentTables.Json.Parser
import ContentTables.Proofs.Entries
import ContentTables.Proofs.Json.NumberText

/-!
# Printed values read back

* `Json.asRead` : the document of a printed value, in which a number is what its text denotes;
* `Document.parse?_text` : a printed value is read as that document;
* `Json.readBack?` : the value that is read back, item by item and field by field;
* `Json.Distinct`, `Json.distinct_of_value?` : a value that was read repeats no name in any object;
* `Json.readBack?_of_sameValue` : values that are equal still are once they are read back.
-/

namespace ContentTables

open Scanner Document

namespace Json

/-! ## What the text of a value says -/

mutual

def asRead : Json → Document
  | .null => .null
  | .bool b => .bool b
  | .num n => (n.readBack?.map Document.num).getD .unreadable
  | .str s => .str s
  | .arr items => .arr (itemsAsRead items)
  | .obj fields => .obj (fieldsAsRead fields)

def itemsAsRead : List Json → List Document
  | [] => []
  | v :: vs => v.asRead :: itemsAsRead vs

def fieldsAsRead : List (String × Json) → List (Option String × Document)
  | [] => []
  | (name, v) :: fs => (some name, v.asRead) :: fieldsAsRead fs

end

/-! ## Reading it -/

theorem skipSpace_cons {c : Char} (hc : isSpace c = false) (cs : List Char) :
    skipSpace (c :: cs) = c :: cs := by
  rw [skipSpace, List.dropWhile_cons, if_neg (by simp [hc])]

theorem kindAt?_of_isSpace {c : Char} (hc : isSpace c = true) : kindAt? c = none := by
  simp only [isSpace, Bool.or_eq_true, beq_iff_eq] at hc
  rcases hc with ((rfl | rfl) | rfl) | rfl <;> decide

/-- No text starts with a space. -/
theorem skipSpace_chars (v : Json) (rest : List Char) :
    skipSpace (v.chars ++ rest) = v.chars ++ rest := by
  have hkind := kindAt?_head v rest
  cases htext : v.chars ++ rest with
  | nil => rfl
  | cons c cs =>
    refine skipSpace_cons (Bool.eq_false_iff.mpr fun hspace => ?_) cs
    rw [htext, List.head?_cons, Option.bind_some, kindAt?_of_isSpace hspace] at hkind
    exact nomatch hkind

theorem ofLiteral_eq {l : Literal} {n : Number} (h : l.value? = n.readBack?) :
    ofLiteral l = (num n).asRead := by
  rw [ofLiteral, h, asRead]

theorem scanName_quoted (name : String) (rest : List Char) :
    scanName (quotedChars name ++ ':' :: rest) = some (some name, rest) := by
  have hscan : scanString (name.toList.flatMap escapedChars ++ '"' :: ':' :: rest) =
      some (name.toList.map escapedPiece, ':' :: rest) := scanString_quoted _ _
  rw [quotedChars, List.cons_append, List.append_assoc, List.singleton_append, scanName, hscan]
  simp only [Option.bind_eq_bind, Option.bind_some, skipSpace_cons (c := ':') rfl,
    joinPieces?_map_escapedPiece, Option.map_some, String.ofList_toList]

theorem scanValue_number (n : Number) (fuel : Nat) {rest : List Char} (hrest : Closed rest) :
    scanValue (fuel + 1) (n.chars ++ rest) = some ((num n).asRead, rest) := by
  obtain ⟨l, hscan, hvalue⟩ := n.scanLiteral_chars hrest
  obtain ⟨c, cs, hn⟩ := List.exists_cons_of_ne_nil (number_chars_ne_nil n)
  have hc : numberChar c = true := numberChar_of_mem_chars (hn ▸ List.mem_cons_self)
  have hskip := skipSpace_chars (num n) rest
  have hother : ∀ d, numberChar d = false → ∀ ds, n.chars ++ rest ≠ d :: ds := by
    intro d hd ds h
    rw [hn] at h
    obtain ⟨rfl, _⟩ := List.cons.inj h
    exact absurd hc (by rw [hd]; decide)
  rw [chars] at hskip
  rw [scanValue, hskip]
  split
  · exact absurd ‹_› (hother _ (by decide) _)
  · exact absurd ‹_› (hother _ (by decide) _)
  · exact absurd ‹_› (hother _ (by decide) _)
  · exact absurd ‹_› (hother _ (by decide) _)
  · exact absurd ‹_› (hother _ (by decide) _)
  · exact absurd ‹_› (hother _ (by decide) _)
  · rw [hscan]
    simp only [Option.bind_eq_bind, Option.bind_some, ofLiteral_eq hvalue]

mutual

/-- Every character of the text takes at most one step. -/
theorem scanValue_chars : ∀ (v : Json) {n : Nat} {rest : List Char}, v.chars.length < n →
    Closed rest → scanValue n (v.chars ++ rest) = some (v.asRead, rest)
  | .null, n + 1, rest, _, _ => rfl
  | .bool true, n + 1, rest, _, _ => rfl
  | .bool false, n + 1, rest, _, _ => rfl
  | .num k, n + 1, rest, _, hrest => scanValue_number k n hrest
  | .str s, n + 1, rest, _, _ => by
    have hscan := scanString_quoted s.toList rest
    rw [chars, quotedChars, List.cons_append, List.append_assoc, List.singleton_append, scanValue,
      skipSpace_cons rfl]
    simp only [hscan, Option.bind_eq_bind, Option.bind_some, ofPieces, joinPieces?_map_escapedPiece,
      Option.map_some, Option.getD_some, String.ofList_toList, asRead]
  | .arr [], n + 1, rest, _, _ => rfl
  | .arr (v :: vs), n + 1, rest, hn, _ => by
    simp only [chars, List.length_cons, List.length_append] at hn
    have hv := scanValue_chars v (n := n) (by omega) (closed_itemChars vs rest)
    have hvs := scanItems_chars vs (n := n) rest (by omega)
    rw [chars, List.cons_append, List.append_assoc, scanValue, skipSpace_cons rfl]
    simp only [skipSpace_chars]
    split
    · exact absurd ‹_› (chars_append_ne_cons v (by decide) _ _)
    · simp only [hv, hvs, Option.bind_eq_bind, Option.bind_some, asRead, itemsAsRead]
  | .obj [], n + 1, rest, _, _ => rfl
  | .obj ((name, v) :: fs), n + 1, rest, hn, _ => by
    simp only [chars, List.length_cons, List.length_append] at hn
    have hv := scanValue_chars v (n := n) (by omega) (closed_fieldChars fs rest)
    have hfs := scanFields_chars fs (n := n) rest (by omega)
    have hname := scanName_quoted name (v.chars ++ (fieldChars fs ++ rest))
    have hquoted : skipSpace (quotedChars name ++ ':' :: (v.chars ++ (fieldChars fs ++ rest))) =
        quotedChars name ++ ':' :: (v.chars ++ (fieldChars fs ++ rest)) := skipSpace_cons rfl _
    rw [chars, List.cons_append, List.append_assoc, List.cons_append, List.append_assoc, scanValue,
      skipSpace_cons rfl]
    simp only [hquoted]
    split
    · rename_i h
      exact absurd (List.cons.inj h).1 (by decide)
    · simp only [hname, hv, hfs, Option.bind_eq_bind, Option.bind_some, asRead, fieldsAsRead]

theorem scanItems_chars : ∀ (vs : List Json) {n : Nat} (rest : List Char),
    (itemChars vs).length ≤ n → scanItems n (itemChars vs ++ rest) = some (itemsAsRead vs, rest)
  | [], n + 1, rest, _ => rfl
  | v :: vs, n + 1, rest, hn => by
    simp only [itemChars, List.length_cons, List.length_append] at hn
    have hclosing : 0 < (itemChars vs).length := by cases vs <;> simp [itemChars]
    have hv := scanValue_chars v (n := n) (by omega) (closed_itemChars vs rest)
    have hvs := scanItems_chars vs (n := n) rest (by omega)
    rw [itemChars, List.cons_append, List.append_assoc, scanItems, skipSpace_cons rfl]
    simp only [hv, hvs, Option.bind_eq_bind, Option.bind_some, itemsAsRead]

theorem scanFields_chars : ∀ (fs : List (String × Json)) {n : Nat} (rest : List Char),
    (fieldChars fs).length ≤ n → scanFields n (fieldChars fs ++ rest) = some (fieldsAsRead fs, rest)
  | [], n + 1, rest, _ => rfl
  | (name, v) :: fs, n + 1, rest, hn => by
    simp only [fieldChars, List.length_cons, List.length_append] at hn
    have hclosing : 0 < (fieldChars fs).length := by cases fs <;> simp [fieldChars]
    have hv := scanValue_chars v (n := n) (by omega) (closed_fieldChars fs rest)
    have hfs := scanFields_chars fs (n := n) rest (by omega)
    have hname := scanName_quoted name (v.chars ++ (fieldChars fs ++ rest))
    have hquoted : skipSpace (quotedChars name ++ ':' :: (v.chars ++ (fieldChars fs ++ rest))) =
        quotedChars name ++ ':' :: (v.chars ++ (fieldChars fs ++ rest)) := skipSpace_cons rfl _
    rw [fieldChars, List.cons_append, List.append_assoc, List.cons_append, List.append_assoc,
      scanFields, skipSpace_cons rfl]
    simp only [hquoted, hname, hv, hfs, Option.bind_eq_bind, Option.bind_some, fieldsAsRead]

end

end Json

/-- A printed value is read as what its text says, up to the limit of depth. -/
theorem Document.parse?_text (v : Json) :
    Document.parse? v.text = some (v.asRead.limitDepth depthLimit) := by
  have hscan := Json.scanValue_chars v (Nat.lt_succ_self _) (nofun : Json.Closed [])
  rw [List.append_nil] at hscan
  unfold Document.parse? Json.text parseChars?
  rw [String.toList_ofList, hscan]
  rfl

namespace Json

/-- The value in the text of a value, at most that deep. -/
def readBack? (k : Nat) (v : Json) : Option Json := (v.asRead.limitDepth k).value?

/-! ## Arrays and objects, part by part -/

def ReadsBackItems (k : Nat) : List Json → List Json → Prop :=
  List.Forall₂ fun v w => v.readBack? k = some w

def ReadsBackFields (k : Nat) : List (String × Json) → List (String × Json) → Prop :=
  Paired fun v w => v.readBack? k = some w

theorem readBack?_number (k : Nat) (n : Number) : (num n).readBack? k = n.readBack?.map num := by
  unfold readBack?
  rw [asRead]
  cases n.readBack? <;> cases k <;> rfl

theorem values?_eq_some_iff {k : Nat} {vs ws : List Json} :
    values? (limitDepthItems k (itemsAsRead vs)) = some ws ↔ ReadsBackItems k vs ws := by
  induction vs generalizing ws with
  | nil =>
    rw [itemsAsRead, limitDepthItems, values?, ReadsBackItems, List.forall₂_nil_left_iff,
      Option.some_inj, eq_comm]
  | cons v vs ih =>
    simp only [itemsAsRead, limitDepthItems, values?, Option.bind_eq_bind, Option.bind_eq_some_iff,
      ih, Option.some_inj, ReadsBackItems, List.forall₂_cons_left_iff]
    constructor
    · rintro ⟨w, hv, ws, hvs, rfl⟩
      exact ⟨w, ws, hv, hvs, rfl⟩
    · rintro ⟨w, ws, hv, hvs, rfl⟩
      exact ⟨w, hv, ws, hvs, rfl⟩

theorem fieldValues?_eq_some_iff {k : Nat} {fs gs : List (String × Json)} :
    fieldValues? (limitDepthFields k (fieldsAsRead fs)) = some gs ↔ ReadsBackFields k fs gs := by
  induction fs generalizing gs with
  | nil =>
    rw [fieldsAsRead, limitDepthFields, fieldValues?, ReadsBackFields, Paired, List.forall₂_nil_left_iff,
      Option.some_inj, eq_comm]
  | cons f fs ih =>
    obtain ⟨name, v⟩ := f
    simp only [fieldsAsRead, limitDepthFields, fieldValues?, Option.bind_eq_bind,
      Option.bind_eq_some_iff, ih, Option.some_inj, ReadsBackFields, Paired, List.forall₂_cons_left_iff]
    constructor
    · rintro ⟨w, hv, gs, hfs, rfl⟩
      exact ⟨(name, w), gs, ⟨rfl, hv⟩, hfs, rfl⟩
    · rintro ⟨⟨_, w⟩, gs, ⟨rfl, hv⟩, hfs, rfl⟩
      exact ⟨w, hv, gs, hfs, rfl⟩

theorem readBack?_arr {k : Nat} {vs : List Json} {w : Json} :
    (arr vs).readBack? (k + 1) = some w ↔ ∃ ws, ReadsBackItems k vs ws ∧ arr ws = w := by
  show (values? (limitDepthItems k (itemsAsRead vs))).map arr = some w ↔ _
  simp only [Option.map_eq_some_iff, values?_eq_some_iff]

theorem readBack?_obj {k : Nat} {fs : List (String × Json)} {w : Json} :
    (obj fs).readBack? (k + 1) = some w ↔
      ∃ gs, ReadsBackFields k fs gs ∧ obj (ofPairs gs) = w := by
  show (fieldValues? (limitDepthFields k (fieldsAsRead fs))).map _ = some w ↔ _
  simp only [Option.map_eq_some_iff, fieldValues?_eq_some_iff]

/-! ## Values without repeated names -/

mutual

/-- No object in the value repeats a name. -/
def Distinct : Json → Prop
  | .arr items => DistinctItems items
  | .obj fields => (namesOf fields).Nodup ∧ DistinctFields fields
  | _ => True

def DistinctItems : List Json → Prop
  | [] => True
  | v :: vs => v.Distinct ∧ DistinctItems vs

def DistinctFields : List (String × Json) → Prop
  | [] => True
  | (_, v) :: fs => v.Distinct ∧ DistinctFields fs

end

theorem distinctFields_iff {fs : List (String × Json)} :
    DistinctFields fs ↔ ∀ f ∈ fs, f.2.Distinct := by
  induction fs with
  | nil => simp [DistinctFields]
  | cons f fs ih =>
    rw [DistinctFields, ih, List.forall_mem_cons]

mutual

/-- The value of a document repeats no name. -/
theorem distinct_of_value? : ∀ (d : Document) {v : Json}, d.value? = some v → v.Distinct
  | .null, _, h => by cases h; trivial
  | .bool _, _, h => by cases h; trivial
  | .num _, _, h => by cases h; trivial
  | .str _, _, h => by cases h; trivial
  | .unreadable, _, h => nomatch h
  | .arr ds, v, h => by
    obtain ⟨vs, hvs, rfl⟩ := Option.map_eq_some_iff.mp h
    exact distinct_of_values? ds hvs
  | .obj fs, v, h => by
    obtain ⟨gs, hgs, rfl⟩ := Option.map_eq_some_iff.mp h
    have hdistinct := distinctFields_iff.mp (distinct_of_fieldValues? fs hgs)
    exact ⟨nodup_namesOf_ofPairs gs, distinctFields_iff.mpr fun f hf =>
      hdistinct f (mem_of_mem_ofPairs hf)⟩

theorem distinct_of_values? : ∀ (ds : List Document) {vs : List Json}, values? ds = some vs →
    DistinctItems vs
  | [], _, h => by cases h; trivial
  | d :: ds, vs, h => by
    simp only [values?, Option.bind_eq_bind, Option.bind_eq_some_iff, Option.some_inj] at h
    obtain ⟨v, hv, ws, hws, rfl⟩ := h
    exact ⟨distinct_of_value? d hv, distinct_of_values? ds hws⟩

theorem distinct_of_fieldValues? : ∀ (fs : List (Option String × Document))
    {gs : List (String × Json)}, fieldValues? fs = some gs → DistinctFields gs
  | [], _, h => by cases h; trivial
  | (none, _) :: _, _, h => nomatch h
  | (some name, d) :: fs, gs, h => by
    simp only [fieldValues?, Option.bind_eq_bind, Option.bind_eq_some_iff, Option.some_inj] at h
    obtain ⟨v, hv, hs, hhs, rfl⟩ := h
    exact ⟨distinct_of_value? d hv, distinct_of_fieldValues? fs hhs⟩

end

/-! ## Equal values -/

theorem sameFields_iff {fs gs : List (String × Json)} : sameFields fs gs = true ↔
    ∀ f ∈ fs, ∃ w, gs.lookup f.1 = some w ∧ f.2.sameValue w = true := by
  induction fs with
  | nil => simp [sameFields]
  | cons f fs ih =>
    obtain ⟨name, v⟩ := f
    simp only [sameFields, Bool.and_eq_true, ih, List.forall_mem_cons, Option.any_eq_true]

theorem sameValue_number_refl (n : Number) : n.sameValue n = true := by
  cases n <;> simp [Number.sameValue, Binary64.sameValue]

mutual

theorem sameValue_refl : ∀ (v : Json), v.Distinct → v.sameValue v = true
  | .null, _ => rfl
  | .bool b, _ => by simp [sameValue]
  | .num n, _ => sameValue_number_refl n
  | .str s, _ => by simp [sameValue]
  | .arr vs, h => sameItems_refl vs h
  | .obj fs, ⟨hnodup, hfields⟩ => by
    have hsame : sameFields fs fs = true := sameFields_iff.mpr fun f hf =>
      ⟨f.2, (lookup_eq_some_iff hnodup).mpr hf, sameValue_of_mem fs hfields f hf⟩
    simp [sameValue, hsame]

theorem sameItems_refl : ∀ (vs : List Json), DistinctItems vs → sameItems vs vs = true
  | [], _ => rfl
  | v :: vs, ⟨hv, hvs⟩ => by
    rw [sameItems, sameValue_refl v hv, sameItems_refl vs hvs]
    rfl

theorem sameValue_of_mem : ∀ (fs : List (String × Json)), DistinctFields fs →
    ∀ f ∈ fs, f.2.sameValue f.2 = true
  | [], _ => nofun
  | (_, v) :: fs, ⟨hv, hfs⟩ => by
    rw [List.forall_mem_cons]
    exact ⟨sameValue_refl v hv, sameValue_of_mem fs hfs⟩

end

/-- Equal numbers are one number, or the two double zeros. -/
theorem readBack?_of_sameNumber {m n n' : Number} (hsame : m.sameValue n = true)
    (hn : n.readBack? = some n') : ∃ m', m.readBack? = some m' ∧ m'.sameValue n' = true := by
  have hrefl : m = n → ∃ m', m.readBack? = some m' ∧ m'.sameValue n' = true := by
    rintro rfl
    exact ⟨n', hn, sameValue_number_refl n'⟩
  cases m with
  | int a =>
    cases n with
    | int b => exact hrefl (congrArg Number.int (by simpa [Number.sameValue] using hsame))
    | float _ => exact nomatch hsame
  | float x =>
    cases n with
    | int _ => exact nomatch hsame
    | float y =>
      have hcases := hsame
      simp only [Number.sameValue, Binary64.sameValue, Bool.or_eq_true, Bool.and_eq_true,
        decide_eq_true_eq] at hcases
      rcases hcases with ⟨hx, hy⟩ | rfl
      · obtain rfl := Option.some.inj ((Number.readBack?_zero hy).symm.trans hn)
        exact ⟨.float x, Number.readBack?_zero hx, hsame⟩
      · exact hrefl rfl

theorem readBack?_scalar (k : Nat) :
    null.readBack? k = some null ∧ (∀ b, (bool b).readBack? k = some (bool b)) ∧
      ∀ s, (str s).readBack? k = some (str s) := by
  cases k <;> exact ⟨rfl, fun _ => rfl, fun _ => rfl⟩

mutual

/-- Equal values that are read back are still equal. -/
theorem readBack?_of_sameValue : ∀ (v w : Json) {k : Nat} {w' : Json}, v.Distinct → w.Distinct →
    v.sameValue w = true → w.readBack? k = some w' →
    ∃ v', v.readBack? k = some v' ∧ v'.sameValue w' = true := by
  intro v w k w' hv hw h hread
  obtain ⟨hnull, hbool, hstr⟩ := readBack?_scalar k
  cases v with
  | null =>
    cases w with
    | null =>
      obtain rfl := Option.some.inj (hnull.symm.trans hread)
      exact ⟨null, hnull, h⟩
    | _ => simp [sameValue] at h
  | bool a =>
    cases w with
    | bool b =>
      obtain rfl := Option.some.inj ((hbool b).symm.trans hread)
      exact ⟨bool a, hbool a, h⟩
    | _ => simp [sameValue] at h
  | str s =>
    cases w with
    | str t =>
      obtain rfl := Option.some.inj ((hstr t).symm.trans hread)
      exact ⟨str s, hstr s, h⟩
    | _ => simp [sameValue] at h
  | num m =>
    cases w with
    | num n =>
      rw [readBack?_number] at hread ⊢
      obtain ⟨n', hn, rfl⟩ := Option.map_eq_some_iff.mp hread
      obtain ⟨m', hm, hm'⟩ := readBack?_of_sameNumber h hn
      exact ⟨.num m', congrArg (Option.map num) hm, hm'⟩
    | _ => simp [sameValue] at h
  | arr vs =>
    cases w with
    | arr ws =>
      cases k with
      | zero => exact nomatch hread
      | succ k =>
        obtain ⟨ws', hitems, rfl⟩ := readBack?_arr.mp hread
        obtain ⟨vs', hvs, hvs'⟩ := readsBackItems_of_sameItems vs ws hv hw h hitems
        exact ⟨.arr vs', readBack?_arr.mpr ⟨vs', hvs, rfl⟩, hvs'⟩
    | _ => simp [sameValue] at h
  | obj fs =>
    cases w with
    | obj gs =>
      cases k with
      | zero => exact nomatch hread
      | succ k =>
        obtain ⟨gs', hfields, rfl⟩ := readBack?_obj.mp hread
        obtain ⟨hlength, hsame⟩ := Bool.and_eq_true_iff.mp h
        obtain ⟨fs', hfs, hfs'⟩ := readsBackFields_of_sameFields fs gs hv.2 hw hsame hfields
        have hnames : namesOf fs = namesOf fs' := hfs.namesOf_eq
        have hnames' : namesOf gs = namesOf gs' := hfields.namesOf_eq
        refine ⟨.obj fs', readBack?_obj.mpr ⟨fs', hfs, ?_⟩, ?_⟩
        · rw [ofPairs_of_nodup (hnames ▸ hv.1)]
        · rw [ofPairs_of_nodup (hnames' ▸ hw.1), sameValue, hfs', ← hfs.length_eq,
            ← hfields.length_eq, hlength]
          rfl
    | _ => simp [sameValue] at h

theorem readsBackItems_of_sameItems : ∀ (vs ws : List Json) {k : Nat} {ws' : List Json},
    DistinctItems vs → DistinctItems ws → sameItems vs ws = true → ReadsBackItems k ws ws' →
    ∃ vs', ReadsBackItems k vs vs' ∧ sameItems vs' ws' = true
  | [], [], _, _, _, _, h, .nil => ⟨[], .nil, h⟩
  | v :: vs, w :: ws, _, _, ⟨hv, hvs⟩, ⟨hw, hws⟩, h, .cons hread hreads => by
    obtain ⟨hsame, hsames⟩ := Bool.and_eq_true_iff.mp h
    obtain ⟨v', hv', hvw⟩ := readBack?_of_sameValue v w hv hw hsame hread
    obtain ⟨vs', hvs', hvws⟩ := readsBackItems_of_sameItems vs ws hvs hws hsames hreads
    exact ⟨v' :: vs', .cons hv' hvs', Bool.and_eq_true_iff.mpr ⟨hvw, hvws⟩⟩

theorem readsBackFields_of_sameFields : ∀ (fs gs : List (String × Json)) {k : Nat}
    {gs' : List (String × Json)}, DistinctFields fs → (obj gs).Distinct →
    sameFields fs gs = true → ReadsBackFields k gs gs' →
    ∃ fs', ReadsBackFields k fs fs' ∧ sameFields fs' gs' = true
  | [], _, _, _, _, _, _, _ => ⟨[], .nil, rfl⟩
  | (name, v) :: fs, gs, _, _, ⟨hv, hfs⟩, ⟨hnodup, hgs⟩, h, hreads => by
    obtain ⟨hsame, hsames⟩ := Bool.and_eq_true_iff.mp h
    obtain ⟨w, hlookup, hvw⟩ := (Option.any_eq_true _ _).mp hsame
    have hw : w.Distinct :=
      distinctFields_iff.mp hgs (name, w) ((lookup_eq_some_iff hnodup).mp hlookup)
    obtain ⟨w', hlookup', hread⟩ := hreads.lookup hlookup
    obtain ⟨v', hv', hvw'⟩ := readBack?_of_sameValue v w hv hw hvw hread
    obtain ⟨fs', hfs', hfields⟩ :=
      readsBackFields_of_sameFields fs gs hfs ⟨hnodup, hgs⟩ hsames hreads
    refine ⟨(name, v') :: fs', .cons ⟨rfl, hv'⟩ hfs', Bool.and_eq_true_iff.mpr ⟨?_, hfields⟩⟩
    exact (Option.any_eq_true _ _).mpr ⟨w', hlookup', hvw'⟩

end

end Json

end ContentTables
