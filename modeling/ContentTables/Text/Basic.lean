/-!
# Texts

* `inRanges ranges c` : the code point lies in one of the ranges, first and last included;
* `isBlankChar c`, `trimBlank s`, `isBlankText s` : the character has the Unicode property
  `White_Space`, the text without such characters at its two ends, and a text of such characters;
* `sameIgnoringCase` : two texts are equal once the letters `A` to `Z` are lowered;
* `containsText part s` : the text has the part somewhere in it.
-/

namespace ContentTables

/-! ## Ranges of characters -/

def inRanges (ranges : List (Nat × Nat)) (c : Char) : Bool :=
  ranges.any fun (first, last) => first ≤ c.toNat && c.toNat ≤ last

theorem inRanges_iff {ranges : List (Nat × Nat)} {c : Char} :
    inRanges ranges c = true ↔ ∃ r ∈ ranges, r.1 ≤ c.toNat ∧ c.toNat ≤ r.2 := by
  simp [inRanges]

/-! ## Blank text -/

/-- The ranges of the property `White_Space`, first and last code point included. -/
def blankRanges : List (Nat × Nat) :=
  [(0x09, 0x0D), (0x20, 0x20), (0x85, 0x85), (0xA0, 0xA0), (0x1680, 0x1680), (0x2000, 0x200A),
   (0x2028, 0x2029), (0x202F, 0x202F), (0x205F, 0x205F), (0x3000, 0x3000)]

def isBlankChar (c : Char) : Bool := inRanges blankRanges c

def trimBlankChars (cs : List Char) : List Char :=
  ((cs.dropWhile isBlankChar).reverse.dropWhile isBlankChar).reverse

def trimBlank (s : String) : String :=
  String.ofList (trimBlankChars s.toList)

def isBlankText (s : String) : Bool :=
  s.toList.all isBlankChar

example : trimBlank "\t\n x y\r" = "x y" := by decide
example : isBlankText " \x0b" = true ∧ isBlankText "" = true ∧ isBlankText " a" = false := by decide

/-- Every character that the core library takes for white space is blank. -/
theorem isBlankChar_of_isWhitespace {c : Char} (h : c.isWhitespace = true) :
    isBlankChar c = true := by
  simp only [Char.isWhitespace, Bool.or_eq_true, decide_eq_true_eq] at h
  rcases h with ((rfl | rfl) | rfl) | rfl <;> decide

/-! ## Letters compared without case

SQL keywords and the words for the two truth values are recognised in any case. Only the letters
`A` to `Z` have a case here, as in the keywords themselves. -/

/-- The characters of a text, with `A` to `Z` lowered. -/
def lowered (s : String) : List Char :=
  s.toList.map Char.toLower

def sameIgnoringCase (s t : String) : Bool :=
  lowered s == lowered t

@[simp] theorem sameIgnoringCase_self (s : String) : sameIgnoringCase s s = true := by
  simp [sameIgnoringCase]

theorem sameIgnoringCase_comm (s t : String) : sameIgnoringCase s t = sameIgnoringCase t s := by
  simp [sameIgnoringCase, Bool.beq_comm]

example : sameIgnoringCase "False" "fALSE" = true ∧ sameIgnoringCase "İ" "i" = false := by decide

/-! ## Parts of a text -/

def containsChars (part : List Char) : List Char → Bool
  | [] => part.isEmpty
  | c :: cs => part.isPrefixOf (c :: cs) || containsChars part cs

def containsText (part s : String) : Bool := containsChars part.toList s.toList

theorem containsChars_iff {part cs : List Char} :
    containsChars part cs = true ↔ part <:+: cs := by
  induction cs with
  | nil => simp [containsChars, List.isEmpty_iff]
  | cons c cs ih => simp [containsChars, ih, List.infix_cons_iff]

end ContentTables
