import ContentTables.Proofs.Json.NumberText

/-!
# Only zero is printed as zero

A decimal with seventeen digits is never further than half a step of its grid from the double, which
is less than the way to the next number that rounds to another. So the search for the digits finds
some, and they are not zero.

* `Decimal.pow_leadingExponent_le` : the first digit is not a zero;
* `Decimal.within_of_between`, `Decimal.around_gaps` : what lies strictly between the ends of the
  interval, and how far away they are;
* `Decimal.exists_seventeen_digits`, `Decimal.shortest_ne_zero` : seventeen digits are enough;
* `Literal.quantity`, `numeral?` : the number that a text says, without any rounding;
* `Number.numeral?_text` : it is zero exactly for the text of zero.
-/

namespace ContentTables

open Binary64 (ratio)

namespace Decimal

/-! ## The grid -/

theorem pow_leadingExponent_le {num den : Nat} (hnum : 0 < num) (hden : 0 < den) :
    (10 : ℚ) ^ leadingExponent num den ≤ num / den := by
  have hden' : (0 : ℚ) < den := Nat.cast_pos.mpr hden
  unfold leadingExponent
  split
  · rename_i hle
    have hne : num / den ≠ 0 := (Nat.div_pos hle hden).ne'
    have hcount : 0 < digitCount (num / den) := by
      rw [digitCount, if_neg hne]
      exact Nat.length_toDigits_pos
    have hpow := pow_digitCount_le hne
    have hexponent : (digitCount (num / den) : ℤ) - 1 =
        ((digitCount (num / den) - 1 : Nat) : ℤ) := by omega
    rw [Nat.le_div_iff_mul_le hden] at hpow
    rw [hexponent, zpow_natCast, le_div_iff₀ hden']
    exact_mod_cast hpow
  · have hlt := lt_pow_digitCount ((den - 1) / num)
    rw [Nat.div_lt_iff_lt_mul hnum] at hlt
    have hle : den ≤ num * 10 ^ digitCount ((den - 1) / num) := by
      rw [Nat.mul_comm]
      omega
    rw [zpow_neg, zpow_natCast, ← one_div, div_le_div_iff₀ (by positivity) hden', one_mul]
    exact_mod_cast hle

/-- Of the two neighbours of a number, one is half a step away or less. -/
theorem exists_neighbour (n : Nat) {m : Nat} (hm : 0 < m) : ∃ q, (q = n / m ∨ q = n / m + 1) ∧
    (n : ℚ) / m - 1 / 2 ≤ q ∧ (q : ℚ) ≤ n / m + 1 / 2 := by
  have hm' : (0 : ℚ) < m := Nat.cast_pos.mpr hm
  have hbelow : ((n / m : Nat) : ℚ) ≤ n / m := by
    rw [le_div_iff₀ hm']
    exact_mod_cast Nat.div_mul_le_self n m
  have habove : (n : ℚ) / m < (n / m : Nat) + 1 := by
    rw [div_lt_iff₀ hm']
    exact_mod_cast Nat.lt_mul_of_div_lt (Nat.lt_succ_self _) hm
  rcases le_total ((n : ℚ) / m) ((n / m : Nat) + 1 / 2) with hnear | hnear
  · exact ⟨n / m, Or.inl rfl, by linarith, by linarith⟩
  · refine ⟨n / m + 1, Or.inr rfl, ?_, ?_⟩ <;> push_cast <;> linarith

/-! ## The interval -/

theorem within_of_between {i : ReadInterval} {d : Decimal} (hden : 0 < i.den)
    (hlow : (i.low : ℚ) / i.den < d.value) (hhigh : d.value < (i.high : ℚ) / i.den) :
    within i d = true := by
  have hden' : (0 : ℚ) < i.den := Nat.cast_pos.mpr hden
  have hratio := ratio_unscale i.den 1 (-d.exponent)
  have hpos := unscale_den_pos i.den Nat.one_pos (-d.exponent)
  have hpos' : (0 : ℚ) < (unscale i.den 1 (-d.exponent)).2 := Nat.cast_pos.mpr hpos
  have hvalue : (d.digits : ℚ) * ratio (unscale i.den 1 (-d.exponent)) = d.value * i.den := by
    rw [hratio, zpow_neg, Nat.cast_one, div_one, div_inv_eq_mul, value]
    ring
  unfold ratio at hvalue
  rw [← mul_div_assoc, div_eq_iff hpos'.ne'] at hvalue
  have hbelow : i.low * (unscale i.den 1 (-d.exponent)).2 <
      d.digits * (unscale i.den 1 (-d.exponent)).1 := by
    rw [div_lt_iff₀ hden'] at hlow
    have hcast := mul_lt_mul_of_pos_right hlow hpos'
    rw [← hvalue] at hcast
    exact_mod_cast hcast
  have habove : d.digits * (unscale i.den 1 (-d.exponent)).1 <
      i.high * (unscale i.den 1 (-d.exponent)).2 := by
    rw [lt_div_iff₀ hden'] at hhigh
    have hcast := mul_lt_mul_of_pos_right hhigh hpos'
    rw [← hvalue] at hcast
    exact_mod_cast hcast
  unfold within
  simp only
  split
  · exact Bool.and_eq_true_iff.mpr ⟨decide_eq_true hbelow.le, decide_eq_true habove.le⟩
  · exact Bool.and_eq_true_iff.mpr ⟨decide_eq_true hbelow, decide_eq_true habove⟩

theorem mid_around (x : Binary64) :
    ((ReadInterval.around x).mid : ℚ) / (ReadInterval.around x).den = x.value := by
  have hratio := Binary64.ratio_scale 1 1 (x.exponent - 2)
  show ((4 * x.significand * (Binary64.scale 1 1 (x.exponent - 2)).1 : Nat) : ℚ) /
    ((Binary64.scale 1 1 (x.exponent - 2)).2 : Nat) = _
  rw [Nat.cast_mul, mul_div_assoc]
  show _ * ratio (Binary64.scale 1 1 (x.exponent - 2)) = _
  rw [hratio, zpow_sub₀ two_ne_zero, Binary64.value]
  push_cast
  ring

/-- Half a step below the double, or a quarter where the steps become smaller. -/
theorem low_around {x : Binary64} (hx : x.isZero = false) : ∃ below : ℚ,
    ((ReadInterval.around x).low : ℚ) / (ReadInterval.around x).den =
        (x.significand - below) * 2 ^ x.exponent ∧
      (below = 1 / 2 ∨ below = 1 / 4 ∧ x.significand = 2 ^ 52) := by
  have hratio := Binary64.ratio_scale 1 1 (x.exponent - 2)
  have hpos : 0 < x.significand := by
    have hmid := mid_around_pos hx
    exact Nat.pos_of_mul_pos_left (Nat.pos_of_mul_pos_right hmid)
  have hlow : ∀ below : Nat, below ≤ 2 →
      (((4 * x.significand - below) * (Binary64.scale 1 1 (x.exponent - 2)).1 : Nat) : ℚ) /
        ((Binary64.scale 1 1 (x.exponent - 2)).2 : Nat) =
          (x.significand - (below : ℚ) / 4) * 2 ^ x.exponent := by
    intro below hbelow
    rw [Nat.cast_mul, mul_div_assoc, Nat.cast_sub (by omega)]
    show _ * ratio (Binary64.scale 1 1 (x.exponent - 2)) = _
    rw [hratio, zpow_sub₀ two_ne_zero]
    push_cast
    ring
  by_cases hpower : x.significand = 0x10000000000000 ∧ 0x20000000000000 ≤ x.magnitude
  · refine ⟨1 / 4, ?_, Or.inr ⟨rfl, hpower.1⟩⟩
    have h := hlow 1 (by decide)
    rw [Nat.cast_one] at h
    rw [← h]
    simp only [ReadInterval.around, if_pos hpower]
  · refine ⟨1 / 2, ?_, Or.inl rfl⟩
    have h := hlow 2 (by decide)
    rw [show ((2 : Nat) : ℚ) / 4 = 1 / 2 by norm_num] at h
    rw [← h]
    simp only [ReadInterval.around, if_neg hpower]

/-- The ends of the interval are further from the double than half a unit in its seventeenth digit
can be. -/
theorem around_gaps {x : Binary64} (hx : x.isZero = false) :
    ((ReadInterval.around x).low : ℚ) / (ReadInterval.around x).den <
        x.value - x.value / (2 * 10 ^ 16) ∧
      x.value + x.value / (2 * 10 ^ 16) <
        ((ReadInterval.around x).high : ℚ) / (ReadInterval.around x).den := by
  obtain ⟨below, hlow, hbelow⟩ := low_around hx
  have hstep : (0 : ℚ) < 2 ^ x.exponent := by positivity
  have hbits : (x.significand : ℚ) < 2 ^ 53 := by exact_mod_cast x.significand_lt
  have hgap : (x.significand : ℚ) / (2 * 10 ^ 16) < below := by
    rw [div_lt_iff₀ (by norm_num)]
    rcases hbelow with rfl | ⟨rfl, hpower⟩
    · linarith
    · rw [hpower]
      norm_num
  have hhalf : (x.significand : ℚ) / (2 * 10 ^ 16) < 1 / 2 := by
    rw [div_lt_iff₀ (by norm_num)]
    linarith
  rw [hlow, (high_around x).2, Binary64.value]
  constructor
  · calc (x.significand - below) * 2 ^ x.exponent
        < (x.significand - x.significand / (2 * 10 ^ 16)) * 2 ^ x.exponent := by gcongr
      _ = _ := by ring
  · calc (x.significand : ℚ) * 2 ^ x.exponent + x.significand * 2 ^ x.exponent / (2 * 10 ^ 16)
        = ((x.significand : ℚ) + x.significand / (2 * 10 ^ 16)) * 2 ^ x.exponent := by ring
      _ < ((x.significand : ℚ) + 1 / 2) * 2 ^ x.exponent := by gcongr

/-! ## Seventeen digits -/

/-- A neighbour of the double on a grid of seventeen digits is read as the double. -/
theorem within_of_near {x : Binary64} (hx : x.isZero = false) {q : Nat} {e : ℤ}
    (hgrid : (10 : ℚ) ^ e ≤ x.value / 10 ^ 16) (hbelow : x.value / 10 ^ e - 1 / 2 ≤ q)
    (habove : q ≤ x.value / 10 ^ e + 1 / 2) : within (ReadInterval.around x) ⟨q, e⟩ = true := by
  obtain ⟨hden, -⟩ := high_around x
  obtain ⟨hlow, hhigh⟩ := around_gaps hx
  have hstep : (0 : ℚ) < 10 ^ e := by positivity
  have hback : x.value / 10 ^ e * 10 ^ e = x.value := div_mul_cancel₀ _ hstep.ne'
  refine within_of_between hden (hlow.trans_le ?_) (lt_of_le_of_lt ?_ hhigh)
  · calc x.value - x.value / (2 * 10 ^ 16) ≤ x.value - 10 ^ e / 2 := by linarith
      _ = (x.value / 10 ^ e - 1 / 2) * 10 ^ e := by rw [sub_mul, hback]; ring
      _ ≤ q * 10 ^ e := by gcongr
  · calc (q : ℚ) * 10 ^ e ≤ (x.value / 10 ^ e + 1 / 2) * 10 ^ e := by gcongr
      _ = x.value + 10 ^ e / 2 := by rw [add_mul, hback]; ring
      _ ≤ x.value + x.value / (2 * 10 ^ 16) := by linarith

theorem exists_seventeen_digits {x : Binary64} (hx : x.isZero = false) :
    ∃ d, ofLength? (ReadInterval.around x) 17 = some d := by
  obtain ⟨hden, -⟩ := high_around x
  have hfirst := pow_leadingExponent_le (mid_around_pos hx) hden
  rw [mid_around] at hfirst
  generalize he : leadingExponent (ReadInterval.around x).mid (ReadInterval.around x).den -
    ((17 - 1 : Nat) : ℤ) = e
  have hratio := ratio_unscale (ReadInterval.around x).mid (ReadInterval.around x).den e
  rw [mid_around, ratio] at hratio
  have hgrid : (10 : ℚ) ^ e ≤ x.value / 10 ^ 16 := by
    rw [le_div_iff₀ (by positivity), ← he, zpow_sub₀ (by norm_num)]
    calc (10 : ℚ) ^ leadingExponent _ _ / 10 ^ ((17 - 1 : Nat) : ℤ) * 10 ^ 16
        = 10 ^ leadingExponent _ _ := by
          rw [zpow_natCast]
          exact div_mul_cancel₀ _ (by positivity)
      _ ≤ x.value := hfirst
  obtain ⟨q, hq, hbelow, habove⟩ := exists_neighbour
    (unscale (ReadInterval.around x).mid (ReadInterval.around x).den e).1
    (unscale_den_pos (ReadInterval.around x).mid hden e)
  rw [hratio] at hbelow habove
  have hwithin := within_of_near hx hgrid hbelow habove
  unfold ofLength?
  simp only [he]
  -- the decimals below and above are the two that are tried
  rcases hq with rfl | rfl
  · rw [hwithin]
    split <;> simp_all
  · rw [hwithin]
    split <;> simp_all

theorem shortest_ne_zero {x : Binary64} (hx : x.isZero = false) : (shortest x).digits ≠ 0 := by
  obtain ⟨d, hd⟩ := exists_seventeen_digits hx
  obtain ⟨hmid, hden⟩ := around_ne_zero hx
  unfold shortest
  simp only
  cases hfound : (List.range' 1 17).findSome? (ofLength? (ReadInterval.around x)) with
  | none =>
    have hnone := List.findSome?_eq_none_iff.mp hfound 17 (by decide)
    exact nomatch hd.symm.trans hnone
  | some found =>
    obtain ⟨_, count, _, _, hcount, _⟩ := List.findSome?_eq_some_iff.mp hfound
    exact dropZeros_digits (ofLength?_digits hmid hden hcount) 17

end Decimal

/-! ## What a numeral says -/

namespace Literal

def power (l : Literal) : ℤ :=
  l.exponent.elim 0 fun (negative, digits) =>
    if negative then -digitsValue digits else digitsValue digits

/-- The number that a literal says, without any rounding. -/
def quantity (l : Literal) : ℚ :=
  (if l.negative then -1 else 1) * digitsValue (l.whole ++ l.fraction) *
    10 ^ (l.power - l.fraction.length)

theorem quantity_eq_zero_iff (l : Literal) :
    l.quantity = 0 ↔ digitsValue (l.whole ++ l.fraction) = 0 := by
  have hpower : (10 : ℚ) ^ (l.power - l.fraction.length) ≠ 0 := by positivity
  have hsign : (if l.negative then -1 else 1 : ℚ) ≠ 0 := by split <;> norm_num
  rw [quantity, mul_eq_zero, or_iff_left hpower, mul_eq_zero, or_iff_right hsign, Nat.cast_eq_zero]

theorem quantity_of_integer? {l : Literal} (hl : l.WellFormed) {n : Integer}
    (h : l.integer? = some n) : l.quantity = n.val := by
  have hvalue : ∀ {k : Int}, Integer.ofInt? k = some n → n.val = k := by
    intro k hk
    unfold Integer.ofInt? at hk
    split at hk
    · rw [← Option.some.inj hk]
    · exact nomatch hk
  unfold integer? at h
  split at h
  · exact nomatch h
  · rename_i hplain
    obtain ⟨hpoint, hexponent⟩ := not_or.mp hplain
    have hfraction : l.fraction = [] := by
      have hdigits := hl.fraction
      rwa [if_neg hpoint] at hdigits
    have hpower : l.power = 0 := by
      rw [power, Option.not_isSome_iff_eq_none.mp hexponent]
      rfl
    rw [quantity, hfraction, hpower, List.append_nil, List.length_nil, Nat.cast_zero, sub_zero,
      zpow_zero, mul_one]
    simp only at h
    split at h
    · rename_i hnegative
      split at h
      · exact nomatch h
      · rw [hvalue h, if_pos hnegative]
        push_cast
        ring
    · rename_i hpositive
      rw [hvalue h, if_neg hpositive, one_mul, Int.cast_natCast]

end Literal

/-- The number that a text says, if the text is a numeral and nothing else. -/
def numeral? (text : String) : Option ℚ :=
  match Scanner.scanLiteral text.toList with
  | some (l, []) => some l.quantity
  | _ => none

theorem numeral?_ofList {l : Literal} (hl : l.WellFormed) :
    numeral? (String.ofList l.chars) = some l.quantity := by
  have hscan := Scanner.scanLiteral_chars hl (nofun : Json.Closed [])
  rw [List.append_nil] at hscan
  rw [numeral?, String.toList_ofList, hscan]

namespace Number

/-- The digits of a literal of a double are all zeros only if the double is zero. -/
theorem exists_literal_float_digits (x : Binary64) : ∃ l : Literal, l.WellFormed ∧
    l.chars = floatChars x ∧
      (Literal.digitsValue (l.whole ++ l.fraction) = 0 ↔ x.isZero = true) := by
  show ∃ l : Literal, l.WellFormed ∧ l.chars = Literal.signChars x.negative ++
    (if x.isZero then ['0', '.', '0'] else decimalChars (Decimal.shortest x)) ∧ _
  by_cases hx : x.isZero = true
  · refine ⟨⟨x.negative, ['0'], ['0'], true, none⟩,
      ⟨digits_zero, fun _ => rfl, digits_zero, nofun⟩, ?_, iff_of_true rfl hx⟩
    rw [if_pos hx]
    simp [Literal.chars, Literal.fractionChars, Literal.exponentChars]
  · have hdigits := Decimal.shortest_ne_zero (Bool.eq_false_iff.mpr hx)
    have hleading := head?_toDigits_ne_zero hdigits
    have hwritten := digits_toDigits (Decimal.shortest x).digits
    rw [if_neg hx]
    unfold decimalChars
    simp only
    split
    · obtain ⟨l, hl, hchars, -, -, hvalue⟩ :=
        exists_literal_positional hwritten hleading x.negative (Decimal.shortest x).exponent
      refine ⟨l, hl, hchars, iff_of_false ?_ hx⟩
      rw [hvalue, Literal.digitsValue_toDigits]
      exact Nat.mul_ne_zero hdigits (Nat.pow_pos (by decide)).ne'
    · obtain ⟨l, hl, hchars, -, hparts, -⟩ := exists_literal_scientific hwritten hleading
        x.negative (Decimal.shortest x).scientificExponent
      refine ⟨l, hl, hchars, iff_of_false ?_ hx⟩
      rw [hparts, Literal.digitsValue_toDigits]
      exact hdigits

/-- The text of a number says a number, and zero only for zero. -/
theorem numeral?_text (n : Number) :
    ∃ q, numeral? n.text = some q ∧ (q = 0 ↔ n.isZero = true) := by
  cases n with
  | int n =>
    obtain ⟨l, hl, hchars, hvalue⟩ := exists_literal_int n.val
    have hinteger : Integer.ofInt? n.val = some n := dif_pos ⟨n.lower, n.upper⟩
    refine ⟨l.quantity, ?_, ?_⟩
    · rw [text, chars, ← hchars, numeral?_ofList hl]
    · rw [Literal.quantity_of_integer? hl (hvalue.trans hinteger), isZero, beq_iff_eq,
        Int.cast_eq_zero]
  | float x =>
    obtain ⟨l, hl, hchars, hzero⟩ := exists_literal_float_digits x
    refine ⟨l.quantity, ?_, l.quantity_eq_zero_iff.trans hzero⟩
    rw [text, chars, ← hchars, numeral?_ofList hl]

end Number

end ContentTables
