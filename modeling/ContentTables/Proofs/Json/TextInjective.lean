import ContentTables.Proofs.Json.QuotedText

/-!
# A text says where it ends

Behind a value there is nothing, or a comma, or a closing bracket or brace (`Closed`). Then the text
of the value can be told from what follows it, so the text of an array or an object determines the
texts of its parts.

* `numberChar`, `kindAt?` : the characters of a number, and the kind of the value that a character
  begins;
* `chars_append_inj` : two values in front of such rests have one text and one rest;
* `chars_arr_inj`, `chars_obj_inj`, `chars_str_inj` : arrays with one text have items with the same
  texts, objects have the same names before them, and strings are equal.
-/

namespace ContentTables.Json

/-! ## Numbers -/

def numberChar (c : Char) : Bool :=
  c.isDigit || c == '-' || c == '+' || c == '.' || c == 'e'

theorem numberChar_of_isDigit {c : Char} (h : c.isDigit = true) : numberChar c = true := by
  simp [numberChar, h]

theorem numberChar_of_mem_toDigits {n : Nat} {c : Char} (h : c ∈ Nat.toDigits 10 n) :
    numberChar c = true :=
  numberChar_of_isDigit (Nat.isDigit_of_mem_toDigits (by decide) (by decide) h)

theorem numberChar_of_mem_positional {digits : List Char} {exponent : Int} {c : Char}
    (hdigits : ∀ c ∈ digits, numberChar c = true) (h : c ∈ Number.positional digits exponent) :
    numberChar c = true := by
  have hzero : ∀ n, c ∈ List.replicate n '0' → numberChar c = true :=
    fun n hc => (List.eq_of_mem_replicate hc) ▸ by decide
  unfold Number.positional at h
  split at h
  · rcases List.mem_append.mp h with h | h
    · exact (List.mem_append.mp h).elim (hdigits c) (hzero _)
    · exact List.all_eq_true.mp (by decide : ['.', '0'].all numberChar = true) c h
  · simp only at h
    split at h
    · rcases List.mem_append.mp h with h | h
      · exact hdigits c (List.mem_of_mem_take h)
      · rcases List.mem_cons.mp h with rfl | h
        · decide
        · exact hdigits c (List.mem_of_mem_drop h)
    · rcases List.mem_cons.mp h with rfl | h
      · decide
      rcases List.mem_cons.mp h with rfl | h
      · decide
      exact (List.mem_append.mp h).elim (hzero _) (hdigits c)

theorem numberChar_of_mem_scientific {digits : List Char} {exponent : Int} {c : Char}
    (hdigits : ∀ c ∈ digits, numberChar c = true) (h : c ∈ Number.scientific digits exponent) :
    numberChar c = true := by
  unfold Number.scientific at h
  rcases List.mem_append.mp h with h | h
  · rcases List.mem_append.mp h with h | h
    · exact hdigits c (List.mem_of_mem_take h)
    · split at h
      · exact absurd h List.not_mem_nil
      · rcases List.mem_cons.mp h with rfl | h
        · decide
        · exact hdigits c (List.mem_of_mem_drop h)
  · rcases List.mem_cons.mp h with rfl | h
    · decide
    rcases List.mem_cons.mp h with rfl | h
    · split <;> decide
    · exact numberChar_of_mem_toDigits h

theorem numberChar_of_mem_chars {n : Number} {c : Char} (h : c ∈ n.chars) :
    numberChar c = true := by
  have hsign : ∀ b : Prop, ∀ _ : Decidable b, c ∈ (if b then ['-'] else []) → numberChar c = true := by
    intro b _ hc
    split at hc
    · rw [List.mem_singleton.mp hc]
      decide
    · exact absurd hc List.not_mem_nil
  cases n with
  | int n => exact (List.mem_append.mp h).elim (hsign _ _) numberChar_of_mem_toDigits
  | float x =>
    rcases List.mem_append.mp h with h | h
    · exact hsign _ _ h
    split at h
    · exact List.all_eq_true.mp (by decide : ['0', '.', '0'].all numberChar = true) c h
    unfold Number.decimalChars at h
    simp only at h
    split at h
    · exact numberChar_of_mem_positional (fun _ => numberChar_of_mem_toDigits) h
    · exact numberChar_of_mem_scientific (fun _ => numberChar_of_mem_toDigits) h

theorem number_chars_ne_nil (n : Number) : n.chars ≠ [] := by
  cases n with
  | int n => exact List.append_ne_nil_of_right_ne_nil _ Nat.toDigits_ne_nil
  | float x =>
    refine List.append_ne_nil_of_right_ne_nil _ ?_
    split
    · decide
    unfold Number.decimalChars Number.positional Number.scientific
    simp only
    split
    · split
      · simp
      · split <;> simp
    · simp

/-! ## Ends of texts -/

/-- Nothing, or a text that goes on behind a value. -/
def Closed (r : List Char) : Prop := ∀ c ∈ r.head?, c ∈ [',', ']', '}']

/-- The kind of the value that a character begins. -/
def kindAt? (c : Char) : Option Kind :=
  if numberChar c then some .number
  else if c = 'n' then some .null
  else if c = 't' ∨ c = 'f' then some .boolean
  else if c = '"' then some .string
  else if c = '[' then some .array
  else if c = '{' then some .object
  else none

theorem kindAt?_of_closes {c : Char} (hc : c ∈ [',', ']', '}']) : kindAt? c = none := by
  simp only [List.mem_cons, List.not_mem_nil, or_false] at hc
  rcases hc with rfl | rfl | rfl <;> decide

theorem numberChar_of_closes {c : Char} (hc : c ∈ [',', ']', '}']) : numberChar c = false := by
  simp only [List.mem_cons, List.not_mem_nil, or_false] at hc
  rcases hc with rfl | rfl | rfl <;> decide

theorem kindAt?_head (v : Json) (r : List Char) :
    (v.chars ++ r).head?.bind kindAt? = some v.kind := by
  match v with
  | .null | .bool true | .bool false | .str _ | .arr [] | .arr (_ :: _) | .obj [] | .obj (_ :: _) =>
    simp only [chars, quotedChars, List.cons_append, List.head?_cons, Option.bind_some, kind]
    decide
  | .num n =>
    obtain ⟨c, cs, hn⟩ := List.exists_cons_of_ne_nil (number_chars_ne_nil n)
    have hc : numberChar c = true := numberChar_of_mem_chars (hn ▸ List.mem_cons_self)
    rw [chars, hn, List.cons_append, List.head?_cons, Option.bind_some, kindAt?, if_pos hc, kind]

theorem kind_eq_of_append {v w : Json} {r s : List Char} (h : v.chars ++ r = w.chars ++ s) :
    v.kind = w.kind := by
  have hv := kindAt?_head v r
  rw [h, kindAt?_head] at hv
  exact (Option.some.inj hv).symm

/-- No text begins with a closing character. -/
theorem chars_append_ne_cons (v : Json) {c : Char} (hc : c ∈ [',', ']', '}']) (r s : List Char) :
    v.chars ++ r ≠ c :: s := by
  intro h
  have hv := kindAt?_head v r
  rw [h, List.head?_cons, Option.bind_some, kindAt?_of_closes hc] at hv
  exact absurd hv nofun

/-- A number ends where its characters end. -/
theorem number_append_inj {m n : Number} {r s : List Char} (hr : Closed r) (hs : Closed s)
    (h : m.chars ++ r = n.chars ++ s) : m.chars = n.chars ∧ r = s := by
  have htaken : ∀ (k : Number) (t : List Char), Closed t →
      (k.chars ++ t).takeWhile numberChar = k.chars := by
    intro k t ht
    rw [List.takeWhile_append_of_pos fun _ => numberChar_of_mem_chars]
    cases t with
    | nil => simp
    | cons c t =>
      rw [List.takeWhile_cons, numberChar_of_closes (ht c rfl)]
      simp
  have hchars : m.chars = n.chars := by rw [← htaken m r hr, h, htaken n s hs]
  rw [hchars] at h
  exact ⟨hchars, List.append_cancel_left h⟩

/-! ## Values -/

theorem closed_itemChars (vs : List Json) (r : List Char) : Closed (itemChars vs ++ r) := by
  cases vs <;> simp [Closed, itemChars]

theorem closed_fieldChars (fs : List (String × Json)) (r : List Char) :
    Closed (fieldChars fs ++ r) := by
  cases fs <;> simp [Closed, fieldChars]

/-- What the text shows of a field. -/
def fieldText (f : String × Json) : String × List Char := (f.1, f.2.chars)

theorem itemChars_congr {vs ws : List Json} (h : vs.map chars = ws.map chars) :
    itemChars vs = itemChars ws := by
  induction vs generalizing ws with
  | nil => rw [List.map_eq_nil_iff.mp h.symm]
  | cons v vs ih =>
    cases ws with
    | nil => exact absurd h (List.cons_ne_nil _ _)
    | cons w ws =>
      obtain ⟨hv, hvs⟩ := List.cons.inj h
      rw [itemChars, itemChars, hv, ih hvs]

theorem fieldChars_congr {fs gs : List (String × Json)} (h : fs.map fieldText = gs.map fieldText) :
    fieldChars fs = fieldChars gs := by
  induction fs generalizing gs with
  | nil => rw [List.map_eq_nil_iff.mp h.symm]
  | cons f fs ih =>
    cases gs with
    | nil => exact absurd h (List.cons_ne_nil _ _)
    | cons g gs =>
      obtain ⟨hf, hfs⟩ := List.cons.inj h
      obtain ⟨hname, hv⟩ := Prod.mk.inj hf
      rw [fieldChars, fieldChars, hname, hv, ih hfs]

theorem chars_arr_congr {vs ws : List Json} (h : vs.map chars = ws.map chars) :
    (arr vs).chars = (arr ws).chars := by
  cases vs <;> cases ws
  · rfl
  · exact absurd h.symm (List.cons_ne_nil _ _)
  · exact absurd h (List.cons_ne_nil _ _)
  · obtain ⟨hv, hvs⟩ := List.cons.inj h
    rw [chars, chars, hv, itemChars_congr hvs]

theorem chars_obj_congr {fs gs : List (String × Json)} (h : fs.map fieldText = gs.map fieldText) :
    (obj fs).chars = (obj gs).chars := by
  cases fs <;> cases gs
  · rfl
  · exact absurd h.symm (List.cons_ne_nil _ _)
  · exact absurd h (List.cons_ne_nil _ _)
  · obtain ⟨hf, hfs⟩ := List.cons.inj h
    obtain ⟨hname, hv⟩ := Prod.mk.inj hf
    rw [chars, chars, hname, hv, fieldChars_congr hfs]

mutual

theorem chars_append_inj : ∀ (v w : Json) {r s : List Char}, Closed r → Closed s →
    v.chars ++ r = w.chars ++ s → v.chars = w.chars ∧ r = s := by
  intro v w r s hr hs h
  have hkind := kind_eq_of_append h
  cases v with
  | null =>
    cases w with
    | null => exact ⟨rfl, List.append_cancel_left h⟩
    | _ => exact nomatch hkind
  | bool a =>
    cases w with
    | bool b =>
      cases a <;> cases b
      · exact ⟨rfl, List.append_cancel_left h⟩
      · exact absurd (List.cons.inj h).1 (by decide)
      · exact absurd (List.cons.inj h).1 (by decide)
      · exact ⟨rfl, List.append_cancel_left h⟩
    | _ => exact nomatch hkind
  | num m =>
    cases w with
    | num n => exact number_append_inj hr hs h
    | _ => exact nomatch hkind
  | str t =>
    cases w with
    | str u =>
      obtain ⟨htext, hrest⟩ := quotedChars_append_inj h
      exact ⟨congrArg quotedChars htext, hrest⟩
    | _ => exact nomatch hkind
  | arr vs =>
    cases w with
    | arr ws =>
      obtain ⟨hitems, hrest⟩ := arr_append_inj vs ws h
      exact ⟨chars_arr_congr hitems, hrest⟩
    | _ => exact nomatch hkind
  | obj fs =>
    cases w with
    | obj gs =>
      obtain ⟨hfields, hrest⟩ := obj_append_inj fs gs h
      exact ⟨chars_obj_congr hfields, hrest⟩
    | _ => exact nomatch hkind

theorem arr_append_inj : ∀ (vs ws : List Json) {r s : List Char},
    (arr vs).chars ++ r = (arr ws).chars ++ s → vs.map chars = ws.map chars ∧ r = s
  | [], [], _, _, h => ⟨rfl, List.append_cancel_left h⟩
  | [], w :: ws, _, _, h => by
    rw [chars, chars] at h
    simp only [List.cons_append, List.append_assoc, List.nil_append] at h
    exact absurd (List.cons.inj h).2.symm (chars_append_ne_cons w (by decide) _ _)
  | v :: vs, [], _, _, h => by
    rw [chars, chars] at h
    simp only [List.cons_append, List.append_assoc, List.nil_append] at h
    exact absurd (List.cons.inj h).2 (chars_append_ne_cons v (by decide) _ _)
  | v :: vs, w :: ws, _, _, h => by
    rw [chars, chars] at h
    simp only [List.cons_append, List.append_assoc] at h
    obtain ⟨hv, hrest⟩ := chars_append_inj v w (closed_itemChars _ _) (closed_itemChars _ _)
      (List.cons.inj h).2
    obtain ⟨hvs, hrest⟩ := itemChars_append_inj vs ws hrest
    exact ⟨by rw [List.map_cons, List.map_cons, hv, hvs], hrest⟩

theorem itemChars_append_inj : ∀ (vs ws : List Json) {r s : List Char},
    itemChars vs ++ r = itemChars ws ++ s → vs.map chars = ws.map chars ∧ r = s
  | [], [], _, _, h => ⟨rfl, List.append_cancel_left h⟩
  | [], _ :: _, _, _, h => absurd (List.cons.inj h).1 (by decide)
  | _ :: _, [], _, _, h => absurd (List.cons.inj h).1 (by decide)
  | v :: vs, w :: ws, _, _, h => by
    rw [itemChars, itemChars] at h
    simp only [List.cons_append, List.append_assoc] at h
    obtain ⟨hv, hrest⟩ := chars_append_inj v w (closed_itemChars _ _) (closed_itemChars _ _)
      (List.cons.inj h).2
    obtain ⟨hvs, hrest⟩ := itemChars_append_inj vs ws hrest
    exact ⟨by rw [List.map_cons, List.map_cons, hv, hvs], hrest⟩

theorem obj_append_inj : ∀ (fs gs : List (String × Json)) {r s : List Char},
    (obj fs).chars ++ r = (obj gs).chars ++ s → fs.map fieldText = gs.map fieldText ∧ r = s
  | [], [], _, _, h => ⟨rfl, List.append_cancel_left h⟩
  | [], (n, w) :: gs, _, _, h => by
    exact absurd (List.cons.inj (List.cons.inj h).2).1 (by decide)
  | (m, v) :: fs, [], _, _, h => by
    exact absurd (List.cons.inj (List.cons.inj h).2).1 (by decide)
  | (m, v) :: fs, (n, w) :: gs, _, _, h => by
    rw [chars, chars] at h
    simp only [List.cons_append, List.append_assoc] at h
    obtain ⟨hname, hrest⟩ := quotedChars_append_inj (List.cons.inj h).2
    obtain ⟨hv, hrest⟩ := chars_append_inj v w (closed_fieldChars _ _) (closed_fieldChars _ _)
      (List.cons.inj hrest).2
    obtain ⟨hfs, hrest⟩ := fieldChars_append_inj fs gs hrest
    exact ⟨by rw [List.map_cons, List.map_cons, fieldText, fieldText, hname, hv, hfs], hrest⟩

theorem fieldChars_append_inj : ∀ (fs gs : List (String × Json)) {r s : List Char},
    fieldChars fs ++ r = fieldChars gs ++ s → fs.map fieldText = gs.map fieldText ∧ r = s
  | [], [], _, _, h => ⟨rfl, List.append_cancel_left h⟩
  | [], (_, _) :: _, _, _, h => absurd (List.cons.inj h).1 (by decide)
  | (_, _) :: _, [], _, _, h => absurd (List.cons.inj h).1 (by decide)
  | (m, v) :: fs, (n, w) :: gs, _, _, h => by
    rw [fieldChars, fieldChars] at h
    simp only [List.cons_append, List.append_assoc] at h
    obtain ⟨hname, hrest⟩ := quotedChars_append_inj (List.cons.inj h).2
    obtain ⟨hv, hrest⟩ := chars_append_inj v w (closed_fieldChars _ _) (closed_fieldChars _ _)
      (List.cons.inj hrest).2
    obtain ⟨hfs, hrest⟩ := fieldChars_append_inj fs gs hrest
    exact ⟨by rw [List.map_cons, List.map_cons, fieldText, fieldText, hname, hv, hfs], hrest⟩

end

theorem chars_arr_inj {vs ws : List Json} (h : (arr vs).chars = (arr ws).chars) :
    vs.map chars = ws.map chars :=
  (arr_append_inj vs ws (congrArg (· ++ []) h)).1

theorem chars_obj_inj {fs gs : List (String × Json)} (h : (obj fs).chars = (obj gs).chars) :
    fs.map fieldText = gs.map fieldText :=
  (obj_append_inj fs gs (congrArg (· ++ []) h)).1

theorem map_text_eq_iff {vs ws : List Json} :
    vs.map text = ws.map text ↔ vs.map chars = ws.map chars := by
  have htext : ∀ us : List Json, us.map text = (us.map chars).map String.ofList := by
    intro us
    rw [List.map_map]
    rfl
  rw [htext, htext]
  exact List.map_inj_right fun _ _ => String.ofList_inj.mp

theorem chars_str_inj {s t : String} (h : (str s).chars = (str t).chars) : s = t :=
  quotedChars_inj h

/-- An integer is the one number with its text. -/
theorem intChars_inj {m n : Int} (h : Number.intChars m = Number.intChars n) : m = n := by
  have hdigits : ∀ k : Int, ∀ c ∈ Nat.toDigits 10 k.natAbs, c ≠ '-' := by
    rintro k c hc rfl
    exact absurd (Nat.isDigit_of_mem_toDigits (by decide) (by decide) hc) (by decide)
  have habs : ∀ k l : Int, Nat.toDigits 10 k.natAbs = Nat.toDigits 10 l.natAbs →
      k.natAbs = l.natAbs := by
    intro k l hkl
    rw [← @Nat.ofDigitChars_ten_toDigits k.natAbs, hkl, Nat.ofDigitChars_ten_toDigits]
  unfold Number.intChars at h
  split at h <;> split at h
  · have := habs m n (List.append_cancel_left h)
    omega
  · exact absurd rfl (hdigits n '-' (by simp only [List.nil_append] at h; rw [← h]; simp))
  · exact absurd rfl (hdigits m '-' (by simp only [List.nil_append] at h; rw [h]; simp))
  · have := habs m n h
    omega

end ContentTables.Json
