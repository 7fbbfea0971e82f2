import ContentTables.Number.Binary64
import Mathlib.Algebra.Order.Field.Power
import Mathlib.Data.Rat.Cast.Order
import Mathlib.Tactic.Linarith
import Mathlib.Tactic.NormNum
import Mathlib.Tactic.Positivity
import Mathlib.Tactic.Ring
import Mathlib.Tactic.FieldSimp

/-!
# Rounding to doubles

* `Binary64.value` : the absolute value of a double;
* `Binary64.limit`, `Binary64.exists_nearest` : every number below half a step above the largest
  double has a nearest double;
* `Binary64.half_step_le` : the doubles but the largest stay a whole step below that;
* `Binary64.value_nearest_le` : how far above an integer its nearest double may lie;
* `Binary64.exists_mul`, `Binary64.exists_div` : products and quotients that are doubles.
-/

namespace ContentTables

namespace Binary64

/-! ## Fractions -/

/-- The number that a numerator and a denominator stand for. -/
def ratio (p : Nat × Nat) : ℚ := (p.1 : ℚ) / p.2

theorem ratio_scale (num den : Nat) (e : ℤ) :
    ratio (scale num den e) = (num : ℚ) / den * 2 ^ e := by
  unfold scale ratio
  split
  · rename_i he
    obtain ⟨k, rfl⟩ := Int.eq_ofNat_of_zero_le he
    simp only [Int.toNat_natCast, Nat.pow_eq, Nat.cast_mul, Nat.cast_pow, Nat.cast_ofNat,
      zpow_natCast]
    ring
  · rename_i he
    obtain ⟨k, hk⟩ := Int.eq_ofNat_of_zero_le (by omega : 0 ≤ -e)
    obtain rfl : e = -(k : ℤ) := by omega
    simp only [neg_neg, Int.toNat_natCast, Nat.pow_eq, Nat.cast_mul, Nat.cast_pow, Nat.cast_ofNat,
      zpow_neg, zpow_natCast]
    rw [div_mul_eq_div_div, div_eq_mul_inv (_ / _)]

theorem scale_den_pos (num : Nat) {den : Nat} (hden : 0 < den) (e : ℤ) : 0 < (scale num den e).2 := by
  unfold scale
  split
  · exact hden
  · exact Nat.mul_pos hden (Nat.two_pow_pos _)

/-- The absolute value of a double. -/
def value (x : Binary64) : ℚ := x.significand * 2 ^ x.exponent

theorem ratio_fraction (x : Binary64) : ratio x.fraction = x.value := by
  rw [fraction, ratio_scale, value, Nat.cast_one, div_one]

theorem fraction_den_pos (x : Binary64) : 0 < x.fraction.2 := scale_den_pos _ Nat.one_pos _

theorem value_nonneg (x : Binary64) : 0 ≤ x.value := by
  unfold value
  positivity

theorem exponent_le (x : Binary64) : x.exponent ≤ 971 := by
  have hfinite := x.finite
  unfold exponent
  omega

theorem significand_lt (x : Binary64) : x.significand < 2 ^ 53 := by
  unfold significand
  split <;> omega

/-! ## The exponent of the leading bit -/

theorem zpow_log2_le {n : Nat} (hn : 0 < n) : (2 : ℚ) ^ (n.log2 : ℤ) ≤ n := by
  rw [zpow_natCast]
  exact_mod_cast Nat.log2_self_le hn.ne'

theorem lt_zpow_log2 (n : Nat) : (n : ℚ) < 2 ^ ((n.log2 : ℤ) + 1) := by
  have hlt : n < 2 ^ (n.log2 + 1) := Nat.lt_log2_self
  rw [show (n.log2 : ℤ) + 1 = ((n.log2 + 1 : Nat) : ℤ) from rfl, zpow_natCast]
  exact_mod_cast hlt

theorem leadingExponent_bounds {num den : Nat} (hnum : 0 < num) (hden : 0 < den) :
    (2 : ℚ) ^ leadingExponent num den ≤ num / den ∧
      (num : ℚ) / den < 2 ^ (leadingExponent num den + 1) := by
  have hden' : (0 : ℚ) < den := Nat.cast_pos.mpr hden
  have htwo : (2 : ℚ) ≠ 0 := two_ne_zero
  have hupper : (num : ℚ) / den < 2 ^ ((num.log2 : ℤ) - den.log2 + 1) := by
    rw [div_lt_iff₀ hden']
    calc (num : ℚ) < 2 ^ ((num.log2 : ℤ) + 1) := lt_zpow_log2 num
      _ = 2 ^ ((num.log2 : ℤ) - den.log2 + 1) * 2 ^ (den.log2 : ℤ) := by
        rw [← zpow_add₀ htwo]
        congr 1
        omega
      _ ≤ 2 ^ ((num.log2 : ℤ) - den.log2 + 1) * den := by
        gcongr
        exact zpow_log2_le hden
  have hratio := ratio_scale num den (-((num.log2 : ℤ) - den.log2))
  have hpos := scale_den_pos num hden (-((num.log2 : ℤ) - den.log2))
  unfold leadingExponent
  simp only
  split
  · rename_i hle
    refine ⟨?_, hupper⟩
    have hone : 1 ≤ ratio (scale num den (-((num.log2 : ℤ) - den.log2))) := by
      unfold ratio
      rw [one_le_div (Nat.cast_pos.mpr hpos)]
      exact_mod_cast hle
    rw [hratio, zpow_neg, ← div_eq_mul_inv, one_le_div (by positivity)] at hone
    exact hone
  · rename_i hlt
    constructor
    · rw [le_div_iff₀ hden']
      calc (2 : ℚ) ^ ((num.log2 : ℤ) - den.log2 - 1) * den
          ≤ 2 ^ ((num.log2 : ℤ) - den.log2 - 1) * 2 ^ ((den.log2 : ℤ) + 1) := by
            gcongr
            exact (lt_zpow_log2 den).le
        _ = 2 ^ (num.log2 : ℤ) := by
          rw [← zpow_add₀ htwo]
          congr 1
          omega
        _ ≤ num := zpow_log2_le hnum
    · have hbelow : ratio (scale num den (-((num.log2 : ℤ) - den.log2))) < 1 := by
        unfold ratio
        rw [div_lt_one (Nat.cast_pos.mpr hpos)]
        exact_mod_cast Nat.not_le.mp hlt
      rw [hratio, zpow_neg, ← div_eq_mul_inv, div_lt_one (by positivity)] at hbelow
      rwa [sub_add_cancel]

/-! ## Rounding to integers -/

theorem roundHalfEven_le (num : Nat) {den : Nat} (hden : 0 < den) :
    (roundHalfEven num den : ℚ) ≤ num / den + 1 / 2 := by
  have hsplit : den * (num / den) + num % den = num := Nat.div_add_mod num den
  have hup : den ≤ 2 * (num % den) →
      2 * ((num / den + 1) * den) ≤ 2 * num + den := by
    intro hle
    calc 2 * ((num / den + 1) * den) = 2 * (den * (num / den)) + den + den := by ring
      _ ≤ 2 * (den * (num / den)) + 2 * (num % den) + den := by omega
      _ = 2 * num + den := by omega
  have hdown : 2 * (num / den * den) ≤ 2 * num + den := by
    rw [Nat.mul_comm (num / den)]
    omega
  have hbound : 2 * (roundHalfEven num den * den) ≤ 2 * num + den := by
    unfold roundHalfEven
    simp only
    split
    · exact hdown
    · rename_i heq
      have heq : 2 * (num % den) = den := Nat.compare_eq_eq.mp heq
      rcases Nat.mod_two_eq_zero_or_one (num / den) with heven | hodd
      · rw [heven]
        exact hdown
      · rw [hodd]
        exact hup heq.ge
    · rename_i hgt
      exact hup (Nat.compare_eq_gt.mp hgt).le
  have hden' : (0 : ℚ) < den := Nat.cast_pos.mpr hden
  have hcast : 2 * ((roundHalfEven num den : ℚ) * den) ≤ 2 * num + den := by exact_mod_cast hbound
  rw [← sub_le_iff_le_add, le_div_iff₀ hden']
  linarith

theorem le_roundHalfEven (num den : Nat) : num / den ≤ roundHalfEven num den := by
  unfold roundHalfEven
  simp only
  split <;> omega

/-! ## Doubles nearest to a number -/

/-- The distance of the largest doubles. -/
@[irreducible]
def topStep : ℚ := 2 ^ (971 : ℤ)

theorem topStep_pos : 0 < topStep := by
  unfold topStep
  positivity

/-- Half a step above the largest double. -/
def limit : ℚ := (2 ^ 53 - 1 / 2) * topStep

theorem value_lt_limit (x : Binary64) : x.value < limit := by
  have hsignificand : (x.significand : ℚ) ≤ 2 ^ 53 - 1 := by
    have hle : x.significand + 1 ≤ 2 ^ 53 := x.significand_lt
    have hcast : (x.significand : ℚ) + 1 ≤ 2 ^ 53 := by exact_mod_cast hle
    linarith
  have hpow : (2 : ℚ) ^ x.exponent ≤ topStep := by
    unfold topStep
    exact zpow_le_zpow_right₀ one_le_two x.exponent_le
  have hpos := topStep_pos
  calc x.value ≤ (2 ^ 53 - 1) * topStep := by
        unfold value
        gcongr
    _ < limit := mul_lt_mul_of_pos_right (by norm_num) hpos

/-- Half a step above any other double is a whole step below the limit. -/
theorem half_step_le {x : Binary64} (h : x.magnitude ≠ 0x7FEFFFFFFFFFFFFF) :
    (x.significand + 1 / 2) * 2 ^ x.exponent ≤ limit - topStep := by
  have hfinite := x.finite
  have htop := topStep_pos
  have hlimit : limit - topStep = (2 ^ 53 - 3 / 2) * topStep := by
    unfold limit
    ring
  rw [hlimit]
  by_cases hlast : x.exponent = 971
  · have hle : x.significand + 2 ≤ 2 ^ 53 := by
      unfold exponent at hlast
      unfold significand
      split <;> omega
    have hcast : (x.significand : ℚ) + 2 ≤ 2 ^ 53 := by exact_mod_cast hle
    have hstep : (2 : ℚ) ^ x.exponent = topStep := by
      rw [hlast, topStep]
    rw [hstep]
    exact mul_le_mul_of_nonneg_right (by linarith) htop.le
  · have hcast : (x.significand : ℚ) < 2 ^ 53 := by exact_mod_cast x.significand_lt
    have hstep : (2 : ℚ) ^ x.exponent ≤ topStep / 2 := by
      have hle : x.exponent ≤ 970 := by
        have := x.exponent_le
        omega
      have hhalf : topStep / 2 = 2 ^ (970 : ℤ) := by
        rw [topStep, show (971 : ℤ) = 970 + 1 from rfl, zpow_add_one₀ two_ne_zero,
          mul_div_cancel_right₀ _ two_ne_zero]
      rw [hhalf]
      exact zpow_le_zpow_right₀ one_le_two hle
    calc ((x.significand : ℚ) + 1 / 2) * 2 ^ x.exponent
        ≤ (2 ^ 53 + 1 / 2) * (topStep / 2) :=
          mul_le_mul (by linarith) hstep (by positivity) (by norm_num)
      _ = ((2 ^ 53 + 1 / 2) / 2) * topStep := by ring
      _ ≤ (2 ^ 53 - 3 / 2) * topStep := mul_le_mul_of_nonneg_right (by norm_num) htop.le

/-- The digits that a double near the number keeps, as a number before rounding. -/
theorem ratio_kept_bounds {num den : Nat} (hnum : 0 < num) (hden : 0 < den) :
    ratio (scale num den (-lastExponent num den)) =
        (num : ℚ) / den * 2 ^ (-lastExponent num den) ∧
      ratio (scale num den (-lastExponent num den)) < 2 ^ 53 := by
  have hratio := ratio_scale num den (-lastExponent num den)
  refine ⟨hratio, ?_⟩
  obtain ⟨_, hupper⟩ := leadingExponent_bounds hnum hden
  have hlast : leadingExponent num den + 1 + -lastExponent num den ≤ 53 := by
    unfold lastExponent
    omega
  calc ratio (scale num den (-lastExponent num den))
      < 2 ^ (leadingExponent num den + 1) * 2 ^ (-lastExponent num den) := by
        rw [hratio]
        gcongr
    _ = 2 ^ (leadingExponent num den + 1 + -lastExponent num den) :=
      (zpow_add₀ two_ne_zero _ _).symm
    _ ≤ 2 ^ (53 : ℤ) := zpow_le_zpow_right₀ one_le_two hlast
    _ = 2 ^ 53 := zpow_natCast 2 53

theorem nearestMagnitude_lt {num den : Nat} (hden : 0 < den) (h : (num : ℚ) / den < limit) :
    nearestMagnitude num den < 0x7FF0000000000000 := by
  unfold nearestMagnitude
  split
  · decide
  · rename_i hne
    have hnum : 0 < num := Nat.pos_of_ne_zero hne
    obtain ⟨hlower, _⟩ := leadingExponent_bounds hnum hden
    obtain ⟨hkept, hlt⟩ := ratio_kept_bounds hnum hden
    have hpos : 0 < (scale num den (-lastExponent num den)).2 := scale_den_pos num hden _
    have hround := roundHalfEven_le (scale num den (-lastExponent num den)).1 hpos
    have hleading : leadingExponent num den ≤ 1023 := by
      have hbelow : (2 : ℚ) ^ leadingExponent num den < 2 ^ (1024 : ℤ) := by
        refine hlower.trans_lt (h.trans_le ?_)
        have hpow : (2 : ℚ) ^ (1024 : ℤ) = 2 ^ 53 * topStep := by
          rw [topStep, ← zpow_natCast (2 : ℚ) 53, ← zpow_add₀ two_ne_zero]
          congr 1
        have htop := topStep_pos
        rw [hpow]
        exact mul_le_mul_of_nonneg_right (by norm_num) htop.le
      have hexponents := (zpow_lt_zpow_iff_right₀ one_lt_two).mp hbelow
      omega
    have hlast : lastExponent num den ≤ 971 := by
      unfold lastExponent
      omega
    simp only
    unfold ratio at hkept hlt
    generalize hr : roundHalfEven (scale num den (-lastExponent num den)).1
      (scale num den (-lastExponent num den)).2 = r at hround
    rw [hkept] at hround hlt
    by_cases htop : lastExponent num den = 971
    · have hsmall : (num : ℚ) / den * 2 ^ (-lastExponent num den) < 2 ^ 53 - 1 / 2 := by
        rw [htop, zpow_neg, ← div_eq_mul_inv, div_lt_iff₀ (by positivity)]
        unfold limit topStep at h
        exact h
      have hcast : (r : ℚ) < 2 ^ 53 := by linarith
      have hnat : r < 2 ^ 53 := by exact_mod_cast hcast
      omega
    · have hcast : (r : ℚ) < 2 ^ 53 + 1 := by linarith
      have hnat : r < 2 ^ 53 + 1 := by exact_mod_cast hcast
      omega

theorem exists_nearest {num den : Nat} (hden : 0 < den) (h : (num : ℚ) / den < limit) :
    ∃ x, nearest? num den = some x := by
  unfold nearest?
  simp only
  rw [dif_pos (nearestMagnitude_lt hden h)]
  exact ⟨_, rfl⟩

/-- The value of a magnitude whose last bits were rounded, possibly up to the next power of two. -/
theorem value_of_magnitude {x : Binary64} {k r : Nat} (h : x.magnitude = k * 2 ^ 52 + r)
    (hlow : 2 ^ 52 ≤ r) (hhigh : r ≤ 2 ^ 53) : x.value = r * 2 ^ ((k : ℤ) - 1074) := by
  have hlarge : ¬ x.magnitude < 0x10000000000000 := by omega
  unfold value significand exponent
  rw [if_neg hlarge, h]
  rcases Nat.lt_or_eq_of_le hhigh with hlt | rfl
  · have hexponent : ((max ((k * 2 ^ 52 + r) / 0x10000000000000) 1 : Nat) : ℤ) - 1075 =
        (k : ℤ) - 1074 := by omega
    have hsignificand : 0x10000000000000 + (k * 2 ^ 52 + r) % 0x10000000000000 = r := by omega
    rw [hexponent, hsignificand]
  · have hexponent : ((max ((k * 2 ^ 52 + 2 ^ 53) / 0x10000000000000) 1 : Nat) : ℤ) - 1075 =
        (k : ℤ) - 1074 + 1 := by omega
    have hsignificand : 0x10000000000000 + (k * 2 ^ 52 + 2 ^ 53) % 0x10000000000000 = 2 ^ 52 := by
      omega
    rw [hexponent, hsignificand, zpow_add₀ two_ne_zero]
    push_cast
    ring

theorem magnitude_of_nearest? {num den : Nat} {x : Binary64} (h : nearest? num den = some x) :
    x.magnitude = nearestMagnitude num den := by
  unfold nearest? at h
  simp only at h
  split at h
  · exact congrArg magnitude (Option.some.inj h).symm
  · exact nomatch h

theorem leadingExponent_nonneg {n : Nat} (hn : 0 < n) : 0 ≤ leadingExponent n 1 := by
  obtain ⟨_, hupper⟩ := leadingExponent_bounds hn Nat.one_pos
  have hone : (1 : ℚ) ≤ n := by exact_mod_cast hn
  have hlt : (2 : ℚ) ^ (0 : ℤ) < 2 ^ (leadingExponent n 1 + 1) := by
    rw [zpow_zero]
    rw [Nat.cast_one, div_one] at hupper
    exact hone.trans_lt hupper
  have hexponents := (zpow_lt_zpow_iff_right₀ one_lt_two).mp hlt
  omega

theorem lastExponent_eq {n : Nat} (hn : 0 < n) :
    lastExponent n 1 = leadingExponent n 1 - 52 := by
  have hleading := leadingExponent_nonneg hn
  unfold lastExponent
  omega

/-- The bits before rounding are as many as a double has. -/
theorem two_pow_le_kept {n : Nat} (hn : 0 < n) :
    2 ^ 52 ≤ (scale n 1 (-lastExponent n 1)).1 / (scale n 1 (-lastExponent n 1)).2 := by
  obtain ⟨hlower, _⟩ := leadingExponent_bounds hn Nat.one_pos
  obtain ⟨hkept, _⟩ := ratio_kept_bounds hn Nat.one_pos
  have hden := scale_den_pos n Nat.one_pos (-lastExponent n 1)
  rw [Nat.le_div_iff_mul_le hden]
  have hratio : (2 : ℚ) ^ 52 ≤ ratio (scale n 1 (-lastExponent n 1)) := by
    rw [hkept, lastExponent_eq hn]
    calc (2 : ℚ) ^ 52 = 2 ^ leadingExponent n 1 * 2 ^ (-(leadingExponent n 1 - 52)) := by
          rw [← zpow_add₀ two_ne_zero, ← zpow_natCast (2 : ℚ) 52]
          congr 1
          push_cast
          ring
      _ ≤ (n : ℚ) / (1 : Nat) * 2 ^ (-(leadingExponent n 1 - 52)) := by gcongr
  unfold ratio at hratio
  rw [le_div_iff₀ (Nat.cast_pos.mpr hden)] at hratio
  exact_mod_cast hratio

/-- The bits that the nearest double of an integer keeps, rounded by a half at most. -/
theorem exists_kept {n : Nat} (hn : 0 < n) {x : Binary64} (h : nearest? n 1 = some x) :
    ∃ r : Nat, x.value = r * 2 ^ lastExponent n 1 ∧
      (r : ℚ) ≤ n * 2 ^ (-lastExponent n 1) + 1 / 2 := by
  have hleading := leadingExponent_nonneg hn
  have hlast := lastExponent_eq hn
  obtain ⟨hkept, hlt⟩ := ratio_kept_bounds hn Nat.one_pos
  have hround := roundHalfEven_le (scale n 1 (-lastExponent n 1)).1
    (scale_den_pos n Nat.one_pos (-lastExponent n 1))
  have hlow := (two_pow_le_kept hn).trans
    (le_roundHalfEven (scale n 1 (-lastExponent n 1)).1 (scale n 1 (-lastExponent n 1)).2)
  have hmagnitude := magnitude_of_nearest? h
  rw [nearestMagnitude, if_neg hn.ne'] at hmagnitude
  simp only at hmagnitude
  unfold ratio at hkept hlt
  generalize roundHalfEven (scale n 1 (-lastExponent n 1)).1 (scale n 1 (-lastExponent n 1)).2 = r
    at hround hlow hmagnitude
  rw [hkept, Nat.cast_one, div_one] at hround hlt
  have hr : r ≤ 2 ^ 53 := by
    have hcast : (r : ℚ) < 2 ^ 53 + 1 := by linarith
    have hnat : r < 2 ^ 53 + 1 := by exact_mod_cast hcast
    omega
  have hexponent : (((lastExponent n 1 + 1074).toNat : Nat) : ℤ) - 1074 = lastExponent n 1 := by
    omega
  refine ⟨r, ?_, hround⟩
  rw [value_of_magnitude hmagnitude hlow hr, hexponent]

/-- The nearest double of an integer lies above it by half a step at most, and not at all below
`2 ^ 53`. -/
theorem value_nearest_le {n : Nat} (hn : 0 < n) {x : Binary64} (h : nearest? n 1 = some x) :
    x.value ≤ ((n + n / 2 ^ 53 : Nat) : ℚ) := by
  have hlast := lastExponent_eq hn
  obtain ⟨r, hvalue, hround⟩ := exists_kept hn h
  rw [hvalue]
  rcases le_or_gt (lastExponent n 1) 0 with hle | hgt
  · -- nothing is rounded away
    obtain ⟨j, hj⟩ := Int.eq_ofNat_of_zero_le (by omega : 0 ≤ -lastExponent n 1)
    have hexact : r ≤ n * 2 ^ j := by
      rw [hj, zpow_natCast] at hround
      have hcast : (r : ℚ) < ((n * 2 ^ j + 1 : Nat) : ℚ) := by
        push_cast
        linarith
      have hnat : r < n * 2 ^ j + 1 := by exact_mod_cast hcast
      omega
    have hneg : lastExponent n 1 = -(j : ℤ) := by omega
    rw [hneg, zpow_neg, zpow_natCast, ← div_eq_mul_inv, div_le_iff₀ (by positivity)]
    calc (r : ℚ) ≤ ((n * 2 ^ j : Nat) : ℚ) := by exact_mod_cast hexact
      _ ≤ ((n + n / 2 ^ 53 : Nat) : ℚ) * 2 ^ j := by
        push_cast
        gcongr
        exact le_add_of_nonneg_right (Nat.cast_nonneg _)
  · obtain ⟨j, hj⟩ := Int.eq_ofNat_of_zero_le (by omega : 0 ≤ lastExponent n 1 - 1)
    have hhalf : 2 ^ j ≤ n / 2 ^ 53 := by
      obtain ⟨hlower, _⟩ := leadingExponent_bounds hn Nat.one_pos
      have hexponents : ((j + 53 : Nat) : ℤ) = leadingExponent n 1 := by
        push_cast
        omega
      rw [Nat.le_div_iff_mul_le (by positivity), ← Nat.pow_add]
      rw [Nat.cast_one, div_one, ← hexponents, zpow_natCast] at hlower
      exact_mod_cast hlower
    have hpow : (2 : ℚ) ^ lastExponent n 1 = 2 * 2 ^ j := by
      rw [show lastExponent n 1 = ((j + 1 : Nat) : ℤ) by push_cast; omega, zpow_natCast, pow_succ]
      ring
    rw [zpow_neg] at hround
    calc (r : ℚ) * 2 ^ lastExponent n 1
        ≤ (n * (2 ^ lastExponent n 1)⁻¹ + 1 / 2) * 2 ^ lastExponent n 1 := by gcongr
      _ = n + 2 ^ j := by
        rw [add_mul, mul_assoc, inv_mul_cancel₀ (by positivity), hpow]
        ring
      _ ≤ ((n + n / 2 ^ 53 : Nat) : ℚ) := by
        push_cast
        gcongr
        exact_mod_cast hhalf

/-! ## Products and quotients -/

theorem exists_mul {x y : Binary64} (h : x.value * y.value < limit) : ∃ z, x.mul? y = some z := by
  have hratio : ((x.fraction.1 * y.fraction.1 : Nat) : ℚ) / (x.fraction.2 * y.fraction.2 : Nat) =
      x.value * y.value := by
    rw [← ratio_fraction, ← ratio_fraction, ratio, ratio, div_mul_div_comm]
    push_cast
    rfl
  obtain ⟨z, hz⟩ := exists_nearest (Nat.mul_pos x.fraction_den_pos y.fraction_den_pos)
    (hratio ▸ h)
  exact ⟨_, by rw [mul?, hz, Option.map_some]⟩

/-- A double divided by one that is not below one. -/
theorem exists_div (x : Binary64) {y : Binary64} (hy : 1 ≤ y.value) : ∃ z, x.div? y = some z := by
  have hnum : 0 < y.fraction.1 := by
    rw [Nat.pos_iff_ne_zero]
    intro hzero
    rw [← ratio_fraction, ratio, hzero, Nat.cast_zero, zero_div] at hy
    exact absurd hy (by norm_num)
  have hratio : ((x.fraction.1 * y.fraction.2 : Nat) : ℚ) / (x.fraction.2 * y.fraction.1 : Nat) =
      x.value / y.value := by
    rw [← ratio_fraction, ← ratio_fraction, ratio, ratio, div_div_div_eq]
    push_cast
    rfl
  have hsmall : x.value / y.value < limit :=
    (div_le_self x.value_nonneg hy).trans_lt x.value_lt_limit
  obtain ⟨z, hz⟩ := exists_nearest (Nat.mul_pos x.fraction_den_pos hnum) (hratio ▸ hsmall)
  exact ⟨_, by rw [div?, hz, Option.map_some]⟩

end Binary64

end ContentTables
