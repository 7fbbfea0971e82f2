import ContentTables.Proofs.Json.TextInjective
import ContentTables.Proofs.Number.PrintedDigits
import ContentTables.Proofs.Number.Reading

/-!
# Printed numbers read back

A printed number is a well-formed literal, so the scanner takes all of it. What the literal denotes
is another matter: a double is read in steps that round on their own, and so it may read back as one
of its neighbours. It never reads back as infinite, close as some of them come to it.

* `Decimal.shortest_digits` : the digits of a printed double do not start with a zero;
* `Literal.WellFormed`, `Scanner.scanLiteral_chars` : a literal that the scanner takes as a whole;
* `Number.exists_literal` : the literal of a printed number;
* `Number.readBack?`, `Number.scanLiteral_chars`, `Number.exists_readBack` : the number that it
  reads back as, and that there is one;
* `Number.readBack?_int`, `Number.readBack?_zero` : an integer and the two double zeros read back as
  themselves.
-/

namespace ContentTables

/-! ## Digits of a double -/

namespace Decimal

/-- On a grid that starts at the first digit of the number or behind it, the number is one or more. -/
theorem unscale_quotient_ne_zero {num den : Nat} (hnum : num ≠ 0) (hden : den ≠ 0) (k : Nat) :
    (unscale num den (leadingExponent num den - k)).1 /
      (unscale num den (leadingExponent num den - k)).2 ≠ 0 := by
  have hquotient : ∀ {a b : Nat}, b ≠ 0 → b ≤ a → a / b ≠ 0 := fun hb hle =>
    Nat.pos_iff_ne_zero.mp (Nat.div_pos hle (Nat.pos_of_ne_zero hb))
  unfold leadingExponent
  split
  · rename_i hle
    have hq : num / den ≠ 0 := hquotient hden hle
    unfold unscale
    split
    · rename_i hexp
      refine hquotient (Nat.mul_ne_zero hden (by simp)) ?_
      have hexp' : ((digitCount (num / den) : Int) - 1 - k).toNat ≤ digitCount (num / den) - 1 := by
        omega
      calc den * Nat.pow 10 _ ≤ den * 10 ^ (digitCount (num / den) - 1) :=
            Nat.mul_le_mul_left _ (Nat.pow_le_pow_right (by decide) hexp')
        _ ≤ den * (num / den) := Nat.mul_le_mul_left _ (pow_digitCount_le hq)
        _ ≤ num := Nat.mul_div_le _ _
    · exact hquotient hden (Nat.le_trans hle (Nat.le_mul_of_pos_right _ (Nat.pow_pos (by decide))))
  · rename_i hlt
    have hcount : den - 1 < num * 10 ^ digitCount ((den - 1) / num) := by
      rw [Nat.mul_comm]
      exact (Nat.div_lt_iff_lt_mul (Nat.pos_of_ne_zero hnum)).mp (lt_pow_digitCount _)
    have hmany : digitCount ((den - 1) / num) ≠ 0 := by
      intro hzero
      rw [hzero] at hcount
      omega
    unfold unscale
    rw [if_neg (by omega)]
    refine hquotient hden ?_
    have hexp : digitCount ((den - 1) / num) ≤
        (-(-(digitCount ((den - 1) / num) : Int) - k)).toNat := by omega
    calc den ≤ num * 10 ^ digitCount ((den - 1) / num) := by omega
      _ ≤ num * Nat.pow 10 _ := Nat.mul_le_mul_left _ (Nat.pow_le_pow_right (by decide) hexp)

theorem ofLength?_digits {i : ReadInterval} (hmid : i.mid ≠ 0) (hden : i.den ≠ 0) {count : Nat}
    {d : Decimal} (h : ofLength? i count = some d) : d.digits ≠ 0 := by
  have hquotient := unscale_quotient_ne_zero hmid hden (count - 1)
  have hround : ∀ n m, n / m ≠ 0 → Binary64.roundHalfEven n m ≠ 0 := by
    intro n m hnm
    unfold Binary64.roundHalfEven
    simp only
    generalize n / m = quotient at hnm
    split <;> omega
  unfold ofLength? at h
  simp only at h
  split at h
  · cases h
    exact hround _ _ hquotient
  · cases h
    exact hquotient
  · cases h
    exact Nat.succ_ne_zero _
  · exact nomatch h

theorem dropZeros_digits {d : Decimal} (h : d.digits ≠ 0) (fuel : Nat) :
    (dropZeros fuel d).digits ≠ 0 := by
  induction fuel generalizing d with
  | zero => exact h
  | succ fuel ih =>
    unfold dropZeros
    split
    · rename_i hzero
      refine ih ?_
      show d.digits / 10 ≠ 0
      omega
    · exact h

theorem around_ne_zero {x : Binary64} (hx : x.isZero = false) :
    (ReadInterval.around x).mid ≠ 0 ∧ (ReadInterval.around x).den ≠ 0 := by
  have hmagnitude : x.magnitude ≠ 0 := by simpa [Binary64.isZero] using hx
  have hsignificand : x.significand ≠ 0 := by
    unfold Binary64.significand
    split <;> omega
  have hscale : ∀ e, (Binary64.scale 1 1 e).1 ≠ 0 ∧ (Binary64.scale 1 1 e).2 ≠ 0 := by
    intro e
    unfold Binary64.scale
    split <;> simp
  obtain ⟨hunit, hden⟩ := hscale (x.exponent - 2)
  exact ⟨Nat.mul_ne_zero (Nat.mul_ne_zero (by decide) hsignificand) hunit, hden⟩

/-- The search starts at the first digit. Should it find nothing, the digits are a single zero. -/
theorem shortest_digits {x : Binary64} (hx : x.isZero = false) :
    (shortest x).digits ≠ 0 ∨ shortest x = ⟨0, 0⟩ := by
  obtain ⟨hmid, hden⟩ := around_ne_zero hx
  unfold shortest
  simp only
  cases hfound : (List.range' 1 17).findSome? (ofLength? (ReadInterval.around x)) with
  | none => exact Or.inr rfl
  | some d =>
    obtain ⟨_, count, _, _, hcount, _⟩ := List.findSome?_eq_some_iff.mp hfound
    exact Or.inl (dropZeros_digits (ofLength?_digits hmid hden hcount) 17)

end Decimal

/-! ## Literals -/

/-- No digit stands at the front. -/
def NoDigit (cs : List Char) : Prop := ∀ c ∈ cs.head?, c.isDigit = false

theorem Json.Closed.noDigit {cs : List Char} (h : Json.Closed cs) : NoDigit cs := by
  intro c hc
  have hcloses := h c hc
  simp only [List.mem_cons, List.not_mem_nil, or_false] at hcloses
  rcases hcloses with rfl | rfl | rfl <;> decide

def Digits (cs : List Char) : Prop := cs ≠ [] ∧ ∀ c ∈ cs, c.isDigit = true

theorem Digits.append {cs ds : List Char} (h : Digits cs) (hds : ∀ c ∈ ds, c.isDigit = true) :
    Digits (cs ++ ds) :=
  ⟨List.append_ne_nil_of_left_ne_nil h.1 _, fun c hc =>
    (List.mem_append.mp hc).elim (h.2 c) (hds c)⟩

theorem digits_toDigits (n : Nat) : Digits (Nat.toDigits 10 n) :=
  ⟨Nat.toDigits_ne_nil, fun _ => Nat.isDigit_of_mem_toDigits (by decide) (by decide)⟩

theorem digits_zero : Digits ['0'] := ⟨nofun, by simp⟩

theorem digitChar_ne_zero : ∀ n < 10, n ≠ 0 → Nat.digitChar n ≠ '0' := by decide

theorem head?_toDigits_ne_zero {n : Nat} (hn : n ≠ 0) : (Nat.toDigits 10 n).head? ≠ some '0' := by
  induction n using Nat.strongRecOn with
  | _ n ih =>
    rw [Nat.toDigits_eq_if (by decide)]
    split
    · rename_i hlt
      exact fun h => digitChar_ne_zero n hlt hn (Option.some.inj h)
    · have hfirst := ih (n / 10) (by omega) (by omega)
      obtain ⟨c, cs, hcons⟩ := List.exists_cons_of_ne_nil (digits_toDigits (n / 10)).1
      rw [hcons] at hfirst ⊢
      exact hfirst

namespace Literal

def exponentChars : Option (Bool × List Char) → List Char
  | none => []
  | some (negative, digits) => 'e' :: (if negative then '-' else '+') :: digits

def fractionChars (hasPoint : Bool) (fraction : List Char) : List Char :=
  if hasPoint then '.' :: fraction else []

def signChars (negative : Bool) : List Char := if negative then ['-'] else []

def chars (l : Literal) : List Char :=
  signChars l.negative ++
    (l.whole ++ (fractionChars l.hasPoint l.fraction ++ exponentChars l.exponent))

theorem digitsValue_append_zeros (digits : List Char) (k : Nat) :
    digitsValue (digits ++ List.replicate k '0') = digitsValue digits * 10 ^ k := by
  unfold digitsValue
  rw [Nat.ofDigitChars_append]
  generalize Nat.ofDigitChars 10 digits 0 = n
  induction k generalizing n with
  | zero => exact (Nat.mul_one n).symm
  | succ k ih =>
    rw [List.replicate_succ, Nat.ofDigitChars_cons, ih, Nat.pow_succ', ← Nat.mul_assoc]
    congr 1
    exact Nat.mul_comm 10 n

theorem digitsValue_zeros_append (k : Nat) (digits : List Char) :
    digitsValue (List.replicate k '0' ++ digits) = digitsValue digits := by
  have hzeros : digitsValue (List.replicate k '0') = 0 := by
    have h := digitsValue_append_zeros [] k
    rwa [List.nil_append, show digitsValue [] = 0 from rfl, Nat.zero_mul] at h
  unfold digitsValue at hzeros ⊢
  rw [Nat.ofDigitChars_append, hzeros]

theorem digitsValue_toDigits (n : Nat) : digitsValue (Nat.toDigits 10 n) = n :=
  Nat.ofDigitChars_ten_toDigits

structure WellFormed (l : Literal) : Prop where
  whole : Digits l.whole
  /-- No zero is superfluous. -/
  leading : l.whole.head? = some '0' → l.whole = ['0']
  fraction : if l.hasPoint then Digits l.fraction else l.fraction = []
  exponent : ∀ e ∈ l.exponent, Digits e.2

end Literal

/-! ## Scanning a literal -/

namespace Scanner

theorem takeDigits_append {digits rest : List Char} (h : ∀ c ∈ digits, c.isDigit = true)
    (hrest : NoDigit rest) : takeDigits (digits ++ rest) = (digits, rest) := by
  unfold takeDigits
  rw [List.takeWhile_append_of_pos h, List.dropWhile_append_of_pos h]
  cases rest with
  | nil => simp
  | cons c rest => simp [hrest c rfl]

theorem scanWhole_append {whole rest : List Char} (h : Digits whole)
    (hleading : whole.head? = some '0' → whole = ['0']) (hrest : NoDigit rest) :
    scanWhole (whole ++ rest) = some (whole, rest) := by
  by_cases hzero : whole.head? = some '0'
  · rw [hleading hzero]
    rfl
  · obtain ⟨c, cs, rfl⟩ := List.exists_cons_of_ne_nil h.1
    have hc : c ≠ '0' := fun hc => hzero (congrArg some hc)
    have hscan : scanWhole (c :: cs ++ rest) =
        if (takeDigits (c :: cs ++ rest)).1.isEmpty then none
        else some (takeDigits (c :: cs ++ rest)) := by
      rw [List.cons_append, scanWhole]
      exact fun _ h => absurd (List.cons.inj h).1 hc
    rw [hscan, takeDigits_append h.2 hrest]
    rfl

theorem scanFraction_append {hasPoint : Bool} {fraction rest : List Char}
    (h : if hasPoint then Digits fraction else fraction = []) (hrest : NoDigit rest)
    (hpoint : rest.head? ≠ some '.') :
    scanFraction (Literal.fractionChars hasPoint fraction ++ rest) =
      some (hasPoint, fraction, rest) := by
  cases hasPoint with
  | true =>
    have h : Digits fraction := h
    show (if (takeDigits (fraction ++ rest)).1.isEmpty then none
      else some (true, takeDigits (fraction ++ rest))) = _
    rw [takeDigits_append h.2 hrest, if_neg]
    simpa using h.1
  | false =>
    obtain rfl : fraction = [] := h
    show scanFraction rest = _
    rw [scanFraction]
    rintro cs rfl
    exact hpoint rfl

theorem scanExponent_append {exponent : Option (Bool × List Char)} {rest : List Char}
    (h : ∀ e ∈ exponent, Digits e.2) (hrest : Json.Closed rest) :
    scanExponent (Literal.exponentChars exponent ++ rest) = some (exponent, rest) := by
  cases exponent with
  | none =>
    cases rest with
    | nil => rfl
    | cons c rest =>
      have hc : ¬ (c = 'e' ∨ c = 'E') := by
        have hcloses := hrest c rfl
        simp only [List.mem_cons, List.not_mem_nil, or_false] at hcloses
        rcases hcloses with rfl | rfl | rfl <;> decide
      exact if_neg hc
  | some e =>
    obtain ⟨negative, digits⟩ := e
    have hdigits : Digits digits := h _ rfl
    have hsign : takeSign ((if negative then '-' else '+') :: (digits ++ rest)) =
        (negative, digits ++ rest) := by cases negative <;> rfl
    rw [Literal.exponentChars, List.cons_append, List.cons_append, scanExponent,
      if_pos (Or.inl rfl), hsign]
    simp only
    rw [takeDigits_append hdigits.2 hrest.noDigit, if_neg]
    simpa using hdigits.1

theorem noDigit_exponentChars (exponent : Option (Bool × List Char)) {rest : List Char}
    (hrest : Json.Closed rest) : NoDigit (Literal.exponentChars exponent ++ rest) ∧
      (Literal.exponentChars exponent ++ rest).head? ≠ some '.' := by
  cases exponent with
  | none =>
    refine ⟨hrest.noDigit, fun h => ?_⟩
    exact absurd (hrest '.' h) (by decide)
  | some e => exact ⟨fun c hc => by cases hc; decide, by simp [Literal.exponentChars]⟩

theorem noDigit_fractionChars (hasPoint : Bool) (fraction : List Char) {rest : List Char}
    (hrest : NoDigit rest) : NoDigit (Literal.fractionChars hasPoint fraction ++ rest) := by
  cases hasPoint with
  | true =>
    intro c hc
    cases hc
    decide
  | false => exact hrest

theorem scanLiteral_chars {l : Literal} (h : l.WellFormed) {rest : List Char}
    (hrest : Json.Closed rest) : scanLiteral (l.chars ++ rest) = some (l, rest) := by
  obtain ⟨negative, whole, fraction, hasPoint, exponent⟩ := l
  obtain ⟨hdigit, hpoint⟩ := noDigit_exponentChars exponent hrest
  have hwhole := scanWhole_append h.whole h.leading (noDigit_fractionChars hasPoint fraction hdigit)
  have hfraction := scanFraction_append h.fraction hdigit hpoint
  have hexponent := scanExponent_append h.exponent hrest
  have hbody : ∀ cs, cs = whole ++ (Literal.fractionChars hasPoint fraction ++
      (Literal.exponentChars exponent ++ rest)) →
      ((scanWhole cs).bind fun w => (scanFraction w.2).bind fun f =>
        (scanExponent f.2.2).bind fun e =>
          some ((⟨negative, w.1, f.2.1, f.1, e.1⟩ : Literal), e.2)) =
      some (⟨negative, whole, fraction, hasPoint, exponent⟩, rest) := by
    rintro cs rfl
    simp only [hwhole, hfraction, hexponent, Option.bind_some]
  have hchars : (Literal.mk negative whole fraction hasPoint exponent).chars ++ rest =
      Literal.signChars negative ++ (whole ++ (Literal.fractionChars hasPoint fraction ++
        (Literal.exponentChars exponent ++ rest))) := by
    simp only [Literal.chars, List.append_assoc]
  rw [hchars]
  cases negative with
  | true => exact hbody _ rfl
  | false =>
    obtain ⟨c, cs, rfl⟩ := List.exists_cons_of_ne_nil h.whole.1
    have hc : c ≠ '-' := by
      rintro rfl
      exact absurd (h.whole.2 '-' List.mem_cons_self) (by decide)
    unfold scanLiteral
    simp only [Literal.signChars, Bool.false_eq_true, if_false, List.nil_append, List.cons_append]
    split
    · rename_i h'
      exact absurd (List.cons.inj h').1 hc
    · exact hbody _ rfl

end Scanner

/-! ## The literal of a number -/

namespace Number

theorem exists_literal_int (n : Int) : ∃ l : Literal, l.WellFormed ∧ l.chars = intChars n ∧
    l.integer? = Integer.ofInt? n := by
  have hdigits := digits_toDigits n.natAbs
  have hvalue : Literal.digitsValue (Nat.toDigits 10 n.natAbs) = n.natAbs :=
    Nat.ofDigitChars_ten_toDigits
  refine ⟨⟨n < 0, Nat.toDigits 10 n.natAbs, [], false, none⟩, ⟨hdigits, ?_, rfl, nofun⟩, ?_, ?_⟩
  · intro hzero
    by_cases hn : n.natAbs = 0
    · rw [hn]
      rfl
    · exact absurd hzero (head?_toDigits_ne_zero hn)
  · simp [Literal.chars, Literal.signChars, Literal.fractionChars, Literal.exponentChars, intChars]
  · unfold Literal.integer?
    simp only [hvalue]
    rw [if_neg (by simp)]
    by_cases hn : n < 0
    · rw [if_pos (decide_eq_true hn), if_neg (by omega)]
      congr 1
      omega
    · rw [if_neg (by simpa using hn)]
      congr 1
      omega

section Doubles
variable {digits : List Char} (h : Digits digits) (hleading : digits.head? ≠ some '0')
include h hleading

/-- The zeros in front of the point are digits of the significand. -/
theorem exists_positional_parts (exponent : Int) : ∃ whole fraction,
    positional digits exponent = whole ++ '.' :: fraction ∧ Digits whole ∧
      (whole.head? = some '0' → whole = ['0']) ∧ Digits fraction ∧
      Literal.digitsValue (whole ++ fraction) =
        Literal.digitsValue digits * 10 ^ (if 0 ≤ exponent then exponent.toNat + 1 else 0) := by
  have hzeros : ∀ n, ∀ c ∈ List.replicate n '0', c.isDigit = true :=
    fun n c hc => (List.eq_of_mem_replicate hc) ▸ by decide
  -- the first digit is not a zero, unless the zero before the point is the only one
  have hfirst : ∀ {cs ds : List Char}, cs ++ ds = digits → cs.head? = some '0' → cs = ['0'] := by
    rintro cs ds rfl hzero
    cases cs with
    | nil => exact nomatch hzero
    | cons c cs => exact absurd hzero hleading
  unfold positional
  split
  · refine ⟨digits ++ List.replicate exponent.toNat '0', ['0'], rfl, h.append (hzeros _), ?_,
      digits_zero, ?_⟩
    · intro hzero
      obtain ⟨c, cs, rfl⟩ := List.exists_cons_of_ne_nil h.1
      exact absurd hzero hleading
    · show Literal.digitsValue (digits ++ List.replicate exponent.toNat '0' ++
        List.replicate 1 '0') = _
      rw [List.append_assoc, ← List.replicate_add, Literal.digitsValue_append_zeros]
  · simp only [Nat.pow_zero, Nat.mul_one]
    split
    · generalize hk : digits.length - (-exponent).toNat = k
      have hdrop : digits.drop k ≠ [] := by
        simp only [ne_eq, List.drop_eq_nil_iff]
        omega
      have htake : digits.take k ≠ [] := by
        simp only [ne_eq, List.take_eq_nil_iff, not_or]
        exact ⟨by omega, h.1⟩
      exact ⟨digits.take k, digits.drop k, rfl,
        ⟨htake, fun c hc => h.2 c (List.mem_of_mem_take hc)⟩,
        hfirst (List.take_append_drop k digits),
        ⟨hdrop, fun c hc => h.2 c (List.mem_of_mem_drop hc)⟩, by rw [List.take_append_drop]⟩
    · generalize (-exponent).toNat - digits.length = k
      refine ⟨['0'], List.replicate k '0' ++ digits, rfl, digits_zero, fun _ => rfl,
        ⟨List.append_ne_nil_of_right_ne_nil _ h.1, ?_⟩, ?_⟩
      · exact fun c hc => (List.mem_append.mp hc).elim (hzeros _ c) (h.2 c)
      · show Literal.digitsValue (List.replicate 1 '0' ++ (List.replicate k '0' ++ digits)) = _
        rw [← List.append_assoc, ← List.replicate_add, Literal.digitsValue_zeros_append]

theorem exists_literal_positional (negative : Bool) (exponent : Int) : ∃ l : Literal,
    l.WellFormed ∧ l.chars = Literal.signChars negative ++ positional digits exponent ∧
      l.exponent = none ∧ 0 < l.fraction.length ∧ Literal.digitsValue (l.whole ++ l.fraction) =
        Literal.digitsValue digits * 10 ^ (if 0 ≤ exponent then exponent.toNat + 1 else 0) := by
  obtain ⟨whole, fraction, hchars, hwhole, hfirst, hfraction, hvalue⟩ :=
    exists_positional_parts h hleading exponent
  refine ⟨⟨negative, whole, fraction, true, none⟩, ⟨hwhole, hfirst, hfraction, nofun⟩, ?_, rfl,
    List.length_pos_of_ne_nil hfraction.1, hvalue⟩
  rw [hchars]
  simp [Literal.chars, Literal.fractionChars, Literal.exponentChars]

theorem exists_literal_scientific (negative : Bool) (exponent : Int) : ∃ l : Literal,
    l.WellFormed ∧ l.chars = Literal.signChars negative ++ scientific digits exponent ∧
      l.exponent = some (decide (exponent < 0), Nat.toDigits 10 exponent.natAbs) ∧
      l.whole ++ l.fraction = digits ∧ l.fraction.length + 1 = digits.length := by
  obtain ⟨first, others, rfl⟩ := List.exists_cons_of_ne_nil h.1
  have hwhole : Digits [first] :=
    ⟨nofun, fun c hc => h.2 c (List.mem_singleton.mp hc ▸ List.mem_cons_self)⟩
  have hexponent : ∀ e ∈ some (decide (exponent < 0), Nat.toDigits 10 exponent.natAbs),
      Digits e.2 := by
    rintro _ ⟨⟩
    exact digits_toDigits _
  refine ⟨⟨negative, [first], others, !others.isEmpty,
    some (exponent < 0, Nat.toDigits 10 exponent.natAbs)⟩,
    ⟨hwhole, fun hzero => absurd hzero hleading, ?_, hexponent⟩, ?_, rfl, rfl, rfl⟩
  · cases others with
    | nil => rfl
    | cons c cs => exact ⟨nofun, fun d hd => h.2 d (List.mem_cons_of_mem _ hd)⟩
  · cases others <;>
      simp [Literal.chars, Literal.fractionChars, Literal.exponentChars, scientific]

end Doubles

/-- The double with the largest magnitude. -/
def IsLargest (x : Binary64) : Prop := x.magnitude = 0x7FEFFFFFFFFFFFFF

theorem exists_float_positional {x : Binary64} (hx : x.isZero = false)
    (hexponent : (Decimal.shortest x).scientificExponent ≤ 15) {l : Literal}
    (hl : l.exponent = none) (hfraction : 0 < l.fraction.length)
    (hvalue : Literal.digitsValue (l.whole ++ l.fraction) = (Decimal.shortest x).digits *
      10 ^ (if 0 ≤ (Decimal.shortest x).exponent then (Decimal.shortest x).exponent.toNat + 1
        else 0)) : ∃ y, l.float? = some y := by
  obtain ⟨hfew, _⟩ := Decimal.shortest_bounds hx
  generalize Decimal.shortest x = d at *
  have hsmall : Literal.digitsValue (l.whole ++ l.fraction) ≤ 10 ^ 17 := by
    rw [hvalue]
    split
    · unfold Decimal.scientificExponent at hexponent
      have hlt := Decimal.lt_pow_digitCount d.digits
      calc d.digits * 10 ^ (d.exponent.toNat + 1)
          ≤ 10 ^ Decimal.digitCount d.digits * 10 ^ (d.exponent.toNat + 1) :=
            Nat.mul_le_mul_right _ hlt.le
        _ = 10 ^ (Decimal.digitCount d.digits + (d.exponent.toNat + 1)) := (Nat.pow_add ..).symm
        _ ≤ 10 ^ 17 := Nat.pow_le_pow_right (by decide) (by omega)
    · rw [Nat.pow_zero, Nat.mul_one]
      exact hfew
  have hword : Literal.digitsValue (l.whole ++ l.fraction) < 2 ^ 64 :=
    hsmall.trans_lt (by decide)
  have hwritten : Literal.writtenExponent? l.exponent = some 0 := by rw [hl]; rfl
  obtain ⟨y, hy⟩ := Literal.exists_shifted hword (e := 0 - l.fraction.length) fun k hk => by omega
  rw [Literal.float?_eq_shifted? hword hwritten, hy]
  exact ⟨_, rfl⟩

/-- An exponent that was written is read again, unless it is too long. -/
theorem writtenExponent?_toDigits (e : Int) :
    Literal.writtenExponent? (some (decide (e < 0), Nat.toDigits 10 e.natAbs)) =
      if e.natAbs < 0x80000000 then some e else none := by
  rw [Literal.writtenExponent?, Literal.digitsValue_toDigits]
  refine if_congr Iff.rfl (congrArg some ?_) rfl
  by_cases hneg : e < 0
  · rw [if_pos (decide_eq_true hneg)]
    omega
  · rw [if_neg (by simpa using hneg)]
    omega

theorem exists_float_scientific {x : Binary64} (hx : x.isZero = false)
    (hdigits : (Decimal.shortest x).digits ≠ 0) (hlargest : ¬ IsLargest x) {l : Literal}
    (hl : l.exponent = some (decide ((Decimal.shortest x).scientificExponent < 0),
      Nat.toDigits 10 (Decimal.shortest x).scientificExponent.natAbs))
    (hwhole : l.whole ++ l.fraction = Nat.toDigits 10 (Decimal.shortest x).digits)
    (hfraction : l.fraction.length + 1 = (Nat.toDigits 10 (Decimal.shortest x).digits).length) :
    ∃ y, l.float? = some y := by
  obtain ⟨hfew, hvalue⟩ := Decimal.shortest_bounds hx
  have hbelow := hvalue.trans (Binary64.half_step_le hlargest)
  generalize Decimal.shortest x = d at *
  have hcount : Decimal.digitCount d.digits = l.fraction.length + 1 := by
    rw [hfraction, Decimal.digitCount, if_neg hdigits]
  have hdigitsValue : Literal.digitsValue (l.whole ++ l.fraction) = d.digits := by
    rw [hwhole, Literal.digitsValue_toDigits]
  have hword : Literal.digitsValue (l.whole ++ l.fraction) < 2 ^ 64 := by
    rw [hdigitsValue]
    exact hfew.trans_lt (by decide)
  have hfit : ∀ k : Nat, d.exponent = k → Literal.Below d.digits k := by
    intro k hk
    rw [Decimal.value, hk, zpow_natCast] at hbelow
    exact hbelow
  have hexponent : d.exponent ≤ 308 := by
    by_contra hlarge
    obtain ⟨k, hk⟩ := Int.eq_ofNat_of_zero_le (by omega : 0 ≤ d.exponent)
    have := (hfit k hk).exponent_le (Nat.pos_of_ne_zero hdigits)
    omega
  have hcountLe : Decimal.digitCount d.digits ≤ 18 :=
    Decimal.digitCount_le (by decide) (hfew.trans_lt (by decide))
  have hscientific : d.scientificExponent = d.exponent + l.fraction.length := by
    rw [Decimal.scientificExponent, hcount]
    push_cast
    ring
  have hread := writtenExponent?_toDigits d.scientificExponent
  rw [← hl] at hread
  by_cases hwritten : d.scientificExponent.natAbs < 0x80000000
  · have hthere : Literal.writtenExponent? l.exponent = some d.scientificExponent := by
      rw [hread, if_pos hwritten]
    obtain ⟨y, hy⟩ := Literal.exists_shifted (hdigitsValue ▸ hword) (e := d.exponent)
      fun k hk => ⟨hfew, hfit k hk⟩
    have hplaces : d.scientificExponent - l.fraction.length = d.exponent := by omega
    rw [Literal.float?_eq_shifted? hword hthere, hplaces, hdigitsValue, hy]
    exact ⟨_, rfl⟩
  · -- only an exponent far below zero is as long as that
    have hneg : d.scientificExponent < 0 := by omega
    have hthere : Literal.writtenExponent? l.exponent = none := by
      rw [hread, if_neg hwritten]
    have hnegative : l.exponentNegative = true := by
      rw [Literal.exponentNegative, hl]
      exact decide_eq_true hneg
    unfold Literal.float?
    simp only [hthere, hnegative, or_true, if_true]
    exact ⟨_, rfl⟩

theorem exists_literal_float (x : Binary64) : ∃ l : Literal, l.WellFormed ∧
    l.chars = floatChars x ∧ (¬ IsLargest x → ∃ y, l.float? = some y) := by
  have hzero : ∃ l : Literal, l.WellFormed ∧
      l.chars = Literal.signChars x.negative ++ ['0', '.', '0'] ∧ ∃ y, l.float? = some y := by
    refine ⟨⟨x.negative, ['0'], ['0'], true, none⟩,
      ⟨digits_zero, fun _ => rfl, digits_zero, nofun⟩, ?_, _, rfl⟩
    simp [Literal.chars, Literal.fractionChars, Literal.exponentChars]
  show ∃ l : Literal, l.WellFormed ∧ l.chars = Literal.signChars x.negative ++
    (if x.isZero then ['0', '.', '0'] else decimalChars (Decimal.shortest x)) ∧ _
  split
  · obtain ⟨l, hl, hchars, hfloat⟩ := hzero
    exact ⟨l, hl, hchars, fun _ => hfloat⟩
  · rename_i hx
    have hx : x.isZero = false := Bool.eq_false_iff.mpr hx
    rcases Decimal.shortest_digits hx with hdigits | hnone
    · unfold decimalChars
      simp only
      have h := digits_toDigits (Decimal.shortest x).digits
      have hleading := head?_toDigits_ne_zero hdigits
      split
      · rename_i hexponent
        obtain ⟨l, hl, hchars, hwritten, hfraction, hvalue⟩ :=
          exists_literal_positional h hleading x.negative (Decimal.shortest x).exponent
        rw [Literal.digitsValue_toDigits] at hvalue
        exact ⟨l, hl, hchars, fun _ =>
          exists_float_positional hx hexponent.2 hwritten hfraction hvalue⟩
      · obtain ⟨l, hl, hchars, hwritten, hwhole, hfraction⟩ :=
          exists_literal_scientific h hleading x.negative (Decimal.shortest x).scientificExponent
        exact ⟨l, hl, hchars, fun hlargest =>
          exists_float_scientific hx hdigits hlargest hwritten hwhole hfraction⟩
    · obtain ⟨l, hl, hchars, hfloat⟩ := hzero
      rw [hnone]
      exact ⟨l, hl, hchars, fun _ => hfloat⟩

/-- Every printed number is a literal. -/
theorem exists_literal (n : Number) : ∃ l : Literal, l.WellFormed ∧ l.chars = n.chars := by
  cases n with
  | int n =>
    obtain ⟨l, hl, hchars, _⟩ := exists_literal_int n.val
    exact ⟨l, hl, hchars⟩
  | float x =>
    obtain ⟨l, hl, hchars, _⟩ := exists_literal_float x
    exact ⟨l, hl, hchars⟩

/-! ## What a printed number reads back as -/

/-- The number in the text of a number, if a double holds it. -/
def readBack? (n : Number) : Option Number :=
  (Scanner.scanLiteral n.chars).bind fun (l, _) => l.value?

theorem readBack?_eq_value? {n : Number} {l : Literal} (hl : l.WellFormed)
    (hchars : l.chars = n.chars) : n.readBack? = l.value? := by
  have hscan := Scanner.scanLiteral_chars hl (nofun : Json.Closed [])
  rw [hchars, List.append_nil] at hscan
  rw [readBack?, hscan]
  rfl

theorem scanLiteral_chars (n : Number) {rest : List Char} (hrest : Json.Closed rest) :
    ∃ l : Literal, Scanner.scanLiteral (n.chars ++ rest) = some (l, rest) ∧
      l.value? = n.readBack? := by
  obtain ⟨l, hl, hchars⟩ := n.exists_literal
  exact ⟨l, hchars ▸ Scanner.scanLiteral_chars hl hrest, (readBack?_eq_value? hl hchars).symm⟩

theorem readBack?_int (n : Integer) : readBack? (.int n) = some (.int n) := by
  obtain ⟨l, hl, hchars, hvalue⟩ := exists_literal_int n.val
  have hofInt : Integer.ofInt? n.val = some n := dif_pos ⟨n.lower, n.upper⟩
  rw [readBack?_eq_value? (n := .int n) hl hchars, Literal.value?, hvalue, hofInt]

theorem readBack?_zero {x : Binary64} (hx : x.isZero = true) :
    readBack? (.float x) = some (.float x) := by
  obtain ⟨negative, magnitude, finite⟩ := x
  obtain rfl : magnitude = 0 := by simpa [Binary64.isZero] using hx
  cases negative <;> rfl

/-- The largest double, of either sign, reads back as one. -/
theorem exists_readBack_largest : ∀ negative : Bool,
    (readBack? (.float ⟨negative, 0x7FEFFFFFFFFFFFFF, by decide⟩)).isSome = true := by
  decide +kernel

/-- Every number reads back as a number. -/
theorem exists_readBack (n : Number) : ∃ m, n.readBack? = some m := by
  cases n with
  | int n => exact ⟨_, readBack?_int n⟩
  | float x =>
    by_cases hlargest : IsLargest x
    · obtain ⟨negative, magnitude, finite⟩ := x
      obtain rfl : magnitude = 0x7FEFFFFFFFFFFFFF := hlargest
      exact Option.isSome_iff_exists.mp (exists_readBack_largest negative)
    · obtain ⟨l, hl, hchars, hfloat⟩ := exists_literal_float x
      obtain ⟨y, hy⟩ := hfloat hlargest
      rw [readBack?_eq_value? (n := .float x) hl hchars, Literal.value?, hy]
      cases l.integer? <;> exact ⟨_, rfl⟩

end Number

end ContentTables
