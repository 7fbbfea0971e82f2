import ContentTables.Number.Shortest
import ContentTables.Proofs.Number.Rounding

/-!
# The digits of a printed double

* `Decimal.value` : the number that a decimal stands for;
* `Decimal.lt_pow_digitCount`, `Decimal.quotient_lt` : how many digits there are;
* `Decimal.ofLength?_bounds`, `Decimal.shortest_bounds` : a printed double has at most seventeen
  digits, or is a power of ten, and it lies at most half a step above the double.
-/

namespace ContentTables

open Binary64 (ratio)

namespace Decimal

/-- The number that a decimal stands for. -/
def value (d : Decimal) : ℚ := d.digits * 10 ^ d.exponent

theorem ratio_unscale (num den : Nat) (e : ℤ) :
    ratio (unscale num den e) = (num : ℚ) / den / 10 ^ e := by
  unfold unscale ratio
  split
  · rename_i he
    obtain ⟨k, rfl⟩ := Int.eq_ofNat_of_zero_le he
    simp only [Int.toNat_natCast, Nat.pow_eq, Nat.cast_mul, Nat.cast_pow, Nat.cast_ofNat,
      zpow_natCast]
    rw [div_div]
  · rename_i he
    obtain ⟨k, hk⟩ := Int.eq_ofNat_of_zero_le (by omega : 0 ≤ -e)
    obtain rfl : e = -(k : ℤ) := by omega
    simp only [neg_neg, Int.toNat_natCast, Nat.pow_eq, Nat.cast_mul, Nat.cast_pow, Nat.cast_ofNat,
      zpow_neg, zpow_natCast, div_inv_eq_mul]
    ring

theorem unscale_den_pos (num : Nat) {den : Nat} (hden : 0 < den) (e : ℤ) : 0 < (unscale num den e).2 := by
  unfold unscale
  split
  · exact Nat.mul_pos hden (Nat.pow_pos (by decide))
  · exact hden

/-! ## How many digits -/

theorem pow_digitCount_le {n : Nat} (hn : n ≠ 0) : 10 ^ (digitCount n - 1) ≤ n := by
  have hpos : 0 < digitCount n := by
    rw [digitCount, if_neg hn]
    exact Nat.length_toDigits_pos
  rw [← Nat.not_lt]
  intro hlt
  have hone : digitCount n - 1 ≠ 0 := by
    intro hzero
    rw [hzero] at hlt
    omega
  have hle := (Nat.length_toDigits_le_iff (by decide) (Nat.pos_of_ne_zero hone)).mpr hlt
  rw [digitCount, if_neg hn] at hle hpos
  omega

theorem lt_pow_digitCount (n : Nat) : n < 10 ^ digitCount n := by
  unfold digitCount
  split
  · omega
  · exact (Nat.length_toDigits_le_iff (by decide) Nat.length_toDigits_pos).mp (Nat.le_refl _)

theorem digitCount_le {n k : Nat} (hk : 0 < k) (h : n < 10 ^ k) : digitCount n ≤ k := by
  unfold digitCount
  split
  · exact Nat.zero_le k
  · exact (Nat.length_toDigits_le_iff (by decide) hk).mpr h

/-- The exponent of the first digit bounds the number. -/
theorem lt_leadingExponent {num den : Nat} (hnum : 0 < num) (hden : 0 < den) :
    (num : ℚ) / den < 10 ^ (leadingExponent num den + 1) := by
  have hden' : (0 : ℚ) < den := Nat.cast_pos.mpr hden
  unfold leadingExponent
  split
  · have hlt := lt_pow_digitCount (num / den)
    rw [Nat.div_lt_iff_lt_mul hden] at hlt
    rw [sub_add_cancel, zpow_natCast, div_lt_iff₀ hden']
    exact_mod_cast hlt
  · rename_i hlt
    have hne : (den - 1) / num ≠ 0 := (Nat.div_pos (by omega) hnum).ne'
    have hle := pow_digitCount_le hne
    have hcount : 0 < digitCount ((den - 1) / num) := by
      rw [digitCount, if_neg hne]
      exact Nat.length_toDigits_pos
    have hexponent : -(digitCount ((den - 1) / num) : ℤ) + 1 =
        -((digitCount ((den - 1) / num) - 1 : Nat) : ℤ) := by omega
    rw [Nat.le_div_iff_mul_le hnum] at hle
    rw [hexponent, zpow_neg, zpow_natCast, ← one_div, div_lt_div_iff₀ hden' (by positivity),
      one_mul]
    have hnat : num * 10 ^ (digitCount ((den - 1) / num) - 1) < den := by
      rw [Nat.mul_comm]
      omega
    exact_mod_cast hnat

/-- On a grid of that many digits the number has no more. -/
theorem quotient_lt {num den : Nat} (hnum : 0 < num) (hden : 0 < den) (k : Nat) :
    (unscale num den (leadingExponent num den - k)).1 /
      (unscale num den (leadingExponent num den - k)).2 < 10 ^ (k + 1) := by
  have hpos := unscale_den_pos num hden (leadingExponent num den - k)
  have hratio := ratio_unscale num den (leadingExponent num den - k)
  have hlt := lt_leadingExponent hnum hden
  rw [Nat.div_lt_iff_lt_mul hpos]
  have hcast : ratio (unscale num den (leadingExponent num den - k)) < 10 ^ (k + 1) := by
    rw [hratio, div_lt_iff₀ (by positivity)]
    calc (num : ℚ) / den < 10 ^ (leadingExponent num den + 1) := hlt
      _ = 10 ^ (k + 1) * 10 ^ (leadingExponent num den - k) := by
        rw [← zpow_natCast, ← zpow_add₀ (by norm_num)]
        congr 1
        push_cast
        ring
  unfold ratio at hcast
  rw [div_lt_iff₀ (Nat.cast_pos.mpr hpos)] at hcast
  exact_mod_cast hcast

/-! ## Decimals in the interval -/

theorem value_le_of_within {i : ReadInterval} {d : Decimal} (hden : 0 < i.den)
    (h : within i d = true) : d.value ≤ (i.high : ℚ) / i.den := by
  have hratio := ratio_unscale i.den 1 (-d.exponent)
  have hpos := unscale_den_pos i.den Nat.one_pos (-d.exponent)
  have hle : d.digits * (unscale i.den 1 (-d.exponent)).1 ≤
      i.high * (unscale i.den 1 (-d.exponent)).2 := by
    unfold within at h
    simp only at h
    split at h
    · exact of_decide_eq_true (Bool.and_eq_true_iff.mp h).2
    · exact (of_decide_eq_true (Bool.and_eq_true_iff.mp h).2).le
  have hcast : (d.digits : ℚ) * ratio (unscale i.den 1 (-d.exponent)) ≤ i.high := by
    unfold ratio
    rw [← mul_div_assoc, div_le_iff₀ (Nat.cast_pos.mpr hpos)]
    exact_mod_cast hle
  rw [hratio, zpow_neg, Nat.cast_one, div_one, div_inv_eq_mul] at hcast
  unfold value
  rw [le_div_iff₀ (Nat.cast_pos.mpr hden)]
  calc (d.digits : ℚ) * 10 ^ d.exponent * i.den = d.digits * (i.den * 10 ^ d.exponent) := by ring
    _ ≤ i.high := hcast

/-- Rounding gives one of the two neighbours. -/
theorem roundHalfEven_cases (num den : Nat) : Binary64.roundHalfEven num den = num / den ∨
    Binary64.roundHalfEven num den = num / den + 1 := by
  unfold Binary64.roundHalfEven
  simp only
  split <;> omega

theorem ofLength?_bounds {i : ReadInterval} (hmid : 0 < i.mid) (hden : 0 < i.den) {count : Nat}
    (hcount : 0 < count) {d : Decimal} (h : ofLength? i count = some d) :
    within i d = true ∧ d.digits ≤ 10 ^ count := by
  have hlt := quotient_lt hmid hden (count - 1)
  rw [Nat.sub_add_cancel hcount] at hlt
  unfold ofLength? at h
  simp only at h
  split at h
  · rename_i hbelow habove
    obtain rfl := Option.some.inj h
    rcases roundHalfEven_cases
      (unscale i.mid i.den (leadingExponent i.mid i.den - (count - 1 : Nat))).1
      (unscale i.mid i.den (leadingExponent i.mid i.den - (count - 1 : Nat))).2 with hr | hr <;>
      rw [hr]
    · exact ⟨hbelow, hlt.le⟩
    · exact ⟨habove, hlt⟩
  · rename_i hbelow _
    obtain rfl := Option.some.inj h
    exact ⟨hbelow, hlt.le⟩
  · rename_i _ habove
    obtain rfl := Option.some.inj h
    exact ⟨habove, hlt⟩
  · exact nomatch h

theorem dropZeros_bounds (fuel : Nat) (d : Decimal) :
    (dropZeros fuel d).value = d.value ∧ (dropZeros fuel d).digits ≤ d.digits := by
  induction fuel generalizing d with
  | zero => exact ⟨rfl, Nat.le_refl _⟩
  | succ fuel ih =>
    unfold dropZeros
    split
    · rename_i hzero
      obtain ⟨hvalue, hdigits⟩ := ih ⟨d.digits / 10, d.exponent + 1⟩
      refine ⟨hvalue.trans ?_, hdigits.trans (Nat.div_le_self _ _)⟩
      have hten : d.digits = 10 * (d.digits / 10) := by omega
      have hcast : (d.digits : ℚ) = 10 * (d.digits / 10 : Nat) := by exact_mod_cast hten
      unfold value
      simp only
      rw [hcast, zpow_add_one₀ (by norm_num)]
      ring
    · exact ⟨rfl, Nat.le_refl _⟩

/-! ## The shortest decimal -/

theorem high_around (x : Binary64) : 0 < (ReadInterval.around x).den ∧
    ((ReadInterval.around x).high : ℚ) / (ReadInterval.around x).den =
      (x.significand + 1 / 2) * 2 ^ x.exponent := by
  have hratio := Binary64.ratio_scale 1 1 (x.exponent - 2)
  refine ⟨Binary64.scale_den_pos _ Nat.one_pos _, ?_⟩
  show (((4 * x.significand + 2) * (Binary64.scale 1 1 (x.exponent - 2)).1 : Nat) : ℚ) /
    ((Binary64.scale 1 1 (x.exponent - 2)).2 : Nat) = _
  rw [Nat.cast_mul, mul_div_assoc]
  show _ * ratio (Binary64.scale 1 1 (x.exponent - 2)) = _
  rw [hratio, zpow_sub₀ two_ne_zero]
  push_cast
  ring

theorem mid_around_pos {x : Binary64} (hx : x.isZero = false) : 0 < (ReadInterval.around x).mid := by
  have hmagnitude : x.magnitude ≠ 0 := by simpa [Binary64.isZero] using hx
  have hsignificand : 0 < x.significand := by
    unfold Binary64.significand
    split <;> omega
  have hunit : 0 < (Binary64.scale 1 1 (x.exponent - 2)).1 := by
    unfold Binary64.scale
    split
    · exact Nat.mul_pos Nat.one_pos (Nat.two_pow_pos _)
    · exact Nat.one_pos
  exact Nat.mul_pos (Nat.mul_pos (by decide) hsignificand) hunit

/-- At most half a step above the double, and not more than seventeen digits or a one and zeros. -/
theorem shortest_bounds {x : Binary64} (hx : x.isZero = false) :
    (shortest x).digits ≤ 10 ^ 17 ∧
      (shortest x).value ≤ (x.significand + 1 / 2) * 2 ^ x.exponent := by
  obtain ⟨hden, hhigh⟩ := high_around x
  unfold shortest
  simp only
  cases hfound : (List.range' 1 17).findSome? (ofLength? (ReadInterval.around x)) with
  | none =>
    have hzero : dropZeros 17 ⟨0, 0⟩ = ⟨0, 0⟩ := rfl
    refine ⟨by simp [hzero], ?_⟩
    rw [Option.getD_none, hzero]
    unfold value
    simp only [Nat.cast_zero, zero_mul]
    positivity
  | some d =>
    obtain ⟨_, count, _, hrange, hcount, _⟩ := List.findSome?_eq_some_iff.mp hfound
    have hmem : count ∈ List.range' 1 17 := hrange ▸ List.mem_append_right _ List.mem_cons_self
    obtain ⟨hone, hlast⟩ := List.mem_range'_1.mp hmem
    obtain ⟨hwithin, hdigits⟩ := ofLength?_bounds (mid_around_pos hx) hden hone hcount
    obtain ⟨hvalue, hfewer⟩ := dropZeros_bounds 17 d
    rw [Option.getD_some, hvalue, ← hhigh]
    refine ⟨?_, value_le_of_within hden hwithin⟩
    calc (dropZeros 17 d).digits ≤ d.digits := hfewer
      _ ≤ 10 ^ count := hdigits
      _ ≤ 10 ^ 17 := Nat.pow_le_pow_right (by decide) (by omega)

end Decimal

end ContentTables
