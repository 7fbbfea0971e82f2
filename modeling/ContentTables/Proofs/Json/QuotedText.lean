import ContentTables.Json.Printer
import ContentTables.Json.Scanner

/-!
# Printed strings read back

* `scanString_quoted` : the scanner finds the end of a printed string, whatever follows it;
* `joinPieces?_map_escapedPiece` : the pieces that it finds there make up the string;
* `quotedChars_append_inj` : hence two printed strings that start the same text are one string.
-/

namespace ContentTables.Json

open Scanner

/-- What the scanner makes of one printed character. -/
def escapedPiece (c : Char) : Piece :=
  if c.toNat < 0x20 ∧ c ∉ ['\n', '\r', '\t', '\x08', '\x0c'] then .unit c.toNat else .char c

theorem hexValue?_hexDigit : ∀ n < 16, hexValue? (hexDigit n) = some n := by
  decide

/-- The printer gives two digits only, and the scanner reads four. -/
theorem unitValue?_hexDigits {n : Nat} (h : n < 0x20) :
    unitValue? '0' '0' (hexDigit (n / 16)) (hexDigit (n % 16)) = some n := by
  have hzero : hexValue? '0' = some 0 := by decide
  have hhigh := hexValue?_hexDigit (n / 16) (by omega)
  have hlow := hexValue?_hexDigit (n % 16) (by omega)
  simp only [unitValue?, hzero, hhigh, hlow, Option.bind_eq_bind, Option.bind_some]
  congr 1
  omega

theorem scanString_letter {e c : Char} (he : e ≠ 'u') (h : escape? e = some c) (rest : List Char) :
    scanString ('\\' :: e :: rest) =
      (scanString rest).map fun (pieces, rest) => (.char c :: pieces, rest) := by
  rw [scanString, h, Option.map_eq_bind]
  · rfl
  · exact fun _ _ _ _ _ hu => absurd hu he

theorem scanString_escapedChars (c : Char) (rest : List Char) :
    scanString (escapedChars c ++ rest) =
      (scanString rest).map fun (pieces, rest) => (escapedPiece c :: pieces, rest) := by
  unfold escapedChars
  -- the seven characters with a letter of their own
  iterate 7
    split
    · subst_vars
      exact scanString_letter (by decide) rfl rest
  split
  · rename_i hquote hback hfeed hreturn htab hbackspace hform hcontrol
    have hpiece : escapedPiece c = .unit c.toNat := by
      refine if_pos ⟨hcontrol, ?_⟩
      simp only [List.mem_cons, List.not_mem_nil, or_false, not_or]
      exact ⟨hfeed, hreturn, htab, hbackspace, hform⟩
    rw [List.cons_append, List.cons_append, List.cons_append, List.cons_append, List.cons_append,
      List.singleton_append, scanString, unitValue?_hexDigits hcontrol, hpiece, Option.map_eq_bind]
    rfl
  · rename_i hquote hback _ _ _ _ _ hplain
    have hpiece : escapedPiece c = .char c := if_neg fun h => hplain h.1
    rw [List.singleton_append, scanString, if_neg (not_or.mpr ⟨hback, hplain⟩), hpiece,
      Option.map_eq_bind]
    · rfl
    · exact hquote
    · exact fun _ _ _ _ _ h _ => hback h
    · exact fun _ _ h _ => hback h

theorem scanString_quoted (s : List Char) (rest : List Char) :
    scanString (s.flatMap escapedChars ++ '"' :: rest) = some (s.map escapedPiece, rest) := by
  induction s with
  | nil => rfl
  | cons c cs ih =>
    rw [List.flatMap_cons, List.append_assoc, scanString_escapedChars, ih]
    rfl

theorem joinPieces?_map_escapedPiece (s : List Char) :
    joinPieces? (s.map escapedPiece) = some s := by
  induction s with
  | nil => rfl
  | cons c cs ih =>
    rw [List.map_cons]
    by_cases h : c.toNat < 0x20 ∧ c ∉ ['\n', '\r', '\t', '\x08', '\x0c']
    · have hhigh : isHighSurrogate c.toNat = false := by
        unfold isHighSurrogate
        simp
        omega
      have hlow : isLowSurrogate c.toNat = false := by
        unfold isLowSurrogate
        simp
        omega
      rw [escapedPiece, if_pos h, joinPieces?.eq_def]
      simp only [hhigh, hlow, Bool.false_eq_true, if_false, ih, Option.map_some, Char.ofNat_toNat]
    · rw [escapedPiece, if_neg h, joinPieces?, ih, Option.map_some]

theorem quotedChars_append_inj {s t : String} {r r' : List Char}
    (h : quotedChars s ++ r = quotedChars t ++ r') : s = t ∧ r = r' := by
  unfold quotedChars at h
  simp only [List.cons_append, List.append_assoc, List.nil_append] at h
  have hscan := congrArg scanString (List.tail_eq_of_cons_eq h)
  rw [scanString_quoted, scanString_quoted] at hscan
  obtain ⟨hpieces, hrest⟩ := Prod.mk.inj (Option.some.inj hscan)
  have hjoined := congrArg joinPieces? hpieces
  rw [joinPieces?_map_escapedPiece, joinPieces?_map_escapedPiece] at hjoined
  exact ⟨String.toList_inj.mp (Option.some.inj hjoined), hrest⟩

theorem quotedChars_inj {s t : String} (h : quotedChars s = quotedChars t) : s = t :=
  (quotedChars_append_inj (congrArg (· ++ []) h)).1

end ContentTables.Json
