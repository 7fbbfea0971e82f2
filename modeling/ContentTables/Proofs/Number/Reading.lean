import ContentTables.Number.Literal
import ContentTables.Proofs.Number.Rounding

/-!
# Reading decimals as doubles

A significand and an exponent of ten are read in two roundings or three, and each of them could pass
the largest double. None does as long as the decimal lies a whole step below the limit.

* `Literal.powerOfTen_bounds` : the powers of ten that are in use;
* `Literal.exists_shifted` : the decimal is read as a double;
* `Literal.float?_eq_shifted?` : what a literal with few digits is read as.
-/

namespace ContentTables

open Binary64

namespace Literal

/-! ## Powers of ten -/

/-- The largest significand of at most seventeen digits that is multiplied by that power of ten. -/
def largestSignificand (k : Nat) : Nat := min ((2 ^ 54 - 3) * 2 ^ 970 / 10 ^ k) (10 ^ 17)

theorem powerOfTen_fractions : ∀ k < 309,
    (powerOfTen k).fraction.2 ≤ (powerOfTen k).fraction.1 ∧
      2 * ((largestSignificand k + largestSignificand k / 2 ^ 53) * (powerOfTen k).fraction.1) <
        (2 ^ 54 - 1) * 2 ^ 971 * (powerOfTen k).fraction.2 := by
  decide +kernel

theorem limit_eq : 2 * limit = (((2 ^ 54 - 1) * 2 ^ 971 : Nat) : ℚ) := by
  unfold limit topStep
  rw [Nat.cast_mul, Nat.cast_pow, ← mul_assoc, show (971 : ℤ) = ((971 : Nat) : ℤ) from rfl,
    zpow_natCast]
  congr 1
  norm_num

theorem powerOfTen_bounds {k : Nat} (hk : k ≤ 308) : 1 ≤ (powerOfTen k).value ∧
    ((largestSignificand k + largestSignificand k / 2 ^ 53 : Nat) : ℚ) * (powerOfTen k).value <
      limit := by
  obtain ⟨hone, hproduct⟩ := powerOfTen_fractions k (Nat.lt_succ_of_le hk)
  have hden : (0 : ℚ) < (powerOfTen k).fraction.2 := Nat.cast_pos.mpr (fraction_den_pos _)
  rw [← ratio_fraction]
  unfold ratio
  constructor
  · rw [one_le_div hden]
    exact_mod_cast hone
  · rw [← mul_div_assoc, div_lt_iff₀ hden]
    have hcast : 2 * (((largestSignificand k + largestSignificand k / 2 ^ 53 : Nat) : ℚ) *
        (powerOfTen k).fraction.1) < 2 * limit * (powerOfTen k).fraction.2 := by
      rw [limit_eq]
      exact_mod_cast hproduct
    linarith

/-! ## Decimals below the limit -/

theorem exists_significand {m : Nat} (hm : m < 2 ^ 64) : ∃ f, nearest? m 1 = some f := by
  refine exists_nearest Nat.one_pos ?_
  have hcast : (m : ℚ) < 2 ^ 64 := by exact_mod_cast hm
  have htop : (2 : ℚ) ^ 64 ≤ topStep := by
    unfold topStep
    rw [← zpow_natCast]
    exact zpow_le_zpow_right₀ one_le_two (by decide)
  have hlimit : topStep ≤ limit :=
    le_mul_of_one_le_left topStep_pos.le (by norm_num)
  rw [Nat.cast_one, div_one]
  exact hcast.trans_le (htop.trans hlimit)

/-- A whole step below the limit. -/
def Below (m k : Nat) : Prop := (m : ℚ) * 10 ^ k ≤ limit - topStep

theorem Below.le_largestSignificand {m k : Nat} (h : Below m k) (hm : m ≤ 10 ^ 17) :
    m ≤ largestSignificand k := by
  refine Nat.le_min.mpr ⟨?_, hm⟩
  rw [Nat.le_div_iff_mul_le (Nat.pow_pos (by decide))]
  have hlimit : limit - topStep = (((2 ^ 54 - 3) * 2 ^ 970 : Nat) : ℚ) := by
    unfold limit topStep
    rw [Nat.cast_mul, Nat.cast_pow, show (971 : ℤ) = ((970 : Nat) : ℤ) + 1 from rfl,
      zpow_add_one₀ two_ne_zero, zpow_natCast, Nat.cast_ofNat]
    generalize (2 : ℚ) ^ 970 = half
    norm_num
    ring
  unfold Below at h
  rw [hlimit] at h
  exact_mod_cast h

theorem Below.exponent_le {m k : Nat} (h : Below m k) (hm : 0 < m) : k ≤ 308 := by
  by_contra hlarge
  have hpow : (10 : ℚ) ^ 309 ≤ 10 ^ k := pow_le_pow_right₀ (by norm_num) (by omega)
  have hone : (1 : ℚ) ≤ m := by exact_mod_cast hm
  have hbound : 2 * limit < 2 * 10 ^ 309 := by
    rw [limit_eq]
    have hnat : (2 ^ 54 - 1) * 2 ^ 971 < 2 * 10 ^ 309 := by decide +kernel
    exact_mod_cast hnat
  have htop := topStep_pos
  have hproduct : (10 : ℚ) ^ k ≤ m * 10 ^ k := le_mul_of_one_le_left (by positivity) hone
  unfold Below at h
  generalize (10 : ℚ) ^ 309 = bound at hpow hbound
  linarith

theorem exists_product {m k : Nat} (hm : 0 < m) (hdigits : m ≤ 10 ^ 17) (h : Below m k)
    {f : Binary64} (hf : nearest? m 1 = some f) : ∃ x, f.mul? (powerOfTen k) = some x := by
  refine exists_mul ?_
  obtain ⟨hone, hlimit⟩ := powerOfTen_bounds (h.exponent_le hm)
  have hle := h.le_largestSignificand hdigits
  have hnat : m + m / 2 ^ 53 ≤ largestSignificand k + largestSignificand k / 2 ^ 53 :=
    Nat.add_le_add hle (Nat.div_le_div_right hle)
  have hvalue : f.value ≤ ((largestSignificand k + largestSignificand k / 2 ^ 53 : Nat) : ℚ) :=
    (value_nearest_le hm hf).trans (by exact_mod_cast hnat)
  exact (mul_le_mul_of_nonneg_right hvalue (value_nonneg _)).trans_lt hlimit

/-- Whatever the exponent, unless the decimal reaches up to the limit. -/
theorem exists_shifted {m : Nat} {e : ℤ} (hm : m < 2 ^ 64)
    (h : ∀ k : Nat, e = k → m ≤ 10 ^ 17 ∧ Below m k) : ∃ x, shifted? m e = some x := by
  obtain ⟨f, hf⟩ := exists_significand hm
  unfold shifted?
  rw [hf]
  simp only [Option.bind_eq_bind, Option.bind_some]
  split
  · exact ⟨f, rfl⟩
  · rename_i hzero
    have hpos : 0 < m := by
      rw [Nat.pos_iff_ne_zero]
      rintro rfl
      obtain rfl := Option.some.inj hf
      exact hzero rfl
    rcases lt_or_ge e 0 with hneg | hnonneg
    · rw [if_neg (by omega), if_neg (by omega)]
      split
      · exact exists_div f (powerOfTen_bounds (by omega)).1
      · split
        · obtain ⟨g, hg⟩ := exists_div f (powerOfTen_bounds (Nat.le_refl 308)).1
          rw [hg, Option.bind_some]
          exact exists_div g (powerOfTen_bounds (by omega)).1
        · exact ⟨zero, rfl⟩
    · obtain ⟨k, rfl⟩ := Int.eq_ofNat_of_zero_le hnonneg
      obtain ⟨hdigits, hbelow⟩ := h k rfl
      have hk := hbelow.exponent_le hpos
      rw [if_neg (by omega), if_pos hnonneg, Int.toNat_natCast]
      exact exists_product hpos hdigits hbelow hf

/-! ## Literals with few digits -/

theorem le_ofDigitChars (cs : List Char) (s : Nat) : s ≤ Nat.ofDigitChars 10 cs s := by
  rw [Nat.ofDigitChars_eq_ofDigitChars_zero]
  have hpow : 1 ≤ 10 ^ cs.length := Nat.pow_pos (by decide)
  exact (Nat.le_mul_of_pos_left s hpow).trans (Nat.le_add_right _ _)

/-- All digits are taken where their number fits the word. -/
theorem absorb_eq {cs : List Char} {s : Nat} (h : Nat.ofDigitChars 10 cs s < UInt64.size) :
    absorb s cs = (Nat.ofDigitChars 10 cs s, []) := by
  induction cs generalizing s with
  | nil => rfl
  | cons c cs ih =>
    have hstep : s * 10 + (c.toNat - '0'.toNat) = 10 * s + (c.toNat - '0'.toNat) := by
      rw [Nat.mul_comm]
    rw [Nat.ofDigitChars_cons] at h ⊢
    have hlt := (le_ofDigitChars cs _).trans_lt h
    rw [absorb]
    simp only [hstep]
    rw [if_pos hlt]
    exact ih h

theorem float?_eq_shifted? {l : Literal} (h : digitsValue (l.whole ++ l.fraction) < 2 ^ 64)
    {e : ℤ} (he : writtenExponent? l.exponent = some e) :
    l.float? = (shifted? (digitsValue (l.whole ++ l.fraction)) (e - l.fraction.length)).map
      (withSign l.negative) := by
  unfold digitsValue at h ⊢
  rw [Nat.ofDigitChars_append] at h ⊢
  have hwhole := absorb_eq ((le_ofDigitChars l.fraction _).trans_lt h)
  have hfraction := absorb_eq h
  unfold float?
  simp only [hwhole, hfraction, he, List.length_nil, Nat.sub_zero]
  congr 2
  push_cast
  ring

end Literal

end ContentTables
