import TokenStream.Binary64.Rounding
import Mathlib.Algebra.Order.Floor.Semifield
import Mathlib.Data.Int.Log
import Mathlib.Data.Rat.Floor
import Mathlib.Tactic

/-!
# Rounding as a function of the rational number

The nearest number to a fraction depends on the rational number that the fraction denotes, and on
nothing else.

**Results** the rounding of a fraction is `patternOf` of the rational number, and a number that
has a pattern is rounded to it.
-/

namespace TokenStream
namespace Binary64

theorem scale_den_pos
    {num den : Nat} (k : Int)
    (hden : 0 < den) :
    0 < (scale num den k).2 := by
  cases k with
  | ofNat n => exact hden
  | negSucc n =>
      have hpow : 0 < 2 ^ (n + 1) := Nat.two_pow_pos (n + 1)
      exact Nat.mul_pos hden hpow

/-- Scaling multiplies the rational number by the power of two. -/
theorem scale_ratio (num den : Nat) (k : Int) :
    ((scale num den k).1 : ℚ) / (scale num den k).2 = (num : ℚ) / den * 2 ^ k := by
  cases k with
  | ofNat n =>
      simp only [scale, Nat.pow_eq, Int.ofNat_eq_natCast, zpow_natCast]
      push_cast
      ring
  | negSucc n =>
      simp only [scale, Nat.pow_eq, zpow_negSucc]
      push_cast
      rw [div_mul_eq_div_div, div_eq_mul_inv ((num : ℚ) / den)]

theorem two_zpow_pos (k : Int) : (0 : ℚ) < 2 ^ k :=
  zpow_pos (by norm_num) k

theorem log2_bounds
    {n : Nat}
    (hn : 0 < n) :
    (2 : ℚ) ^ (n.log2 : Int) ≤ n ∧ (n : ℚ) < 2 ^ ((n.log2 : Int) + 1) := by
  constructor
  · rw [zpow_natCast]
    exact_mod_cast Nat.log2_self_le (Nat.ne_of_gt hn)
  · have hlt : n < 2 ^ (n.log2 + 1) := Nat.lt_log2_self
    rw [← Nat.cast_succ, zpow_natCast]
    exact_mod_cast hlt

/-- The size of a fraction is the size of the rational number. -/
theorem floorLog2_eq_log
    {num den : Nat}
    (hnum : 0 < num)
    (hden : 0 < den) :
    floorLog2 num den = Int.log 2 ((num : ℚ) / den) := by
  have hq : (0 : ℚ) < (num : ℚ) / den := by positivity
  have hd : (0 : ℚ) < den := by exact_mod_cast hden
  obtain ⟨hnumLow, hnumHigh⟩ := log2_bounds hnum
  obtain ⟨hdenLow, hdenHigh⟩ := log2_bounds hden
  set g : Int := (Nat.log2 num : Int) - Nat.log2 den with hg
  have hlow : (2 : ℚ) ^ (g - 1) ≤ (num : ℚ) / den := by
    rw [le_div_iff₀ hd]
    calc (2 : ℚ) ^ (g - 1) * den
        ≤ 2 ^ (g - 1) * 2 ^ ((den.log2 : Int) + 1) := by
          exact mul_le_mul_of_nonneg_left hdenHigh.le (two_zpow_pos _).le
      _ = 2 ^ (num.log2 : Int) := by
          rw [← zpow_add₀ (by norm_num)]
          congr 1
          omega
      _ ≤ num := hnumLow
  have hhigh : (num : ℚ) / den < 2 ^ (g + 1) := by
    rw [div_lt_iff₀ hd]
    calc (num : ℚ)
        < 2 ^ ((num.log2 : Int) + 1) := hnumHigh
      _ = 2 ^ (g + 1) * 2 ^ (den.log2 : Int) := by
          rw [← zpow_add₀ (by norm_num)]
          congr 1
          omega
      _ ≤ 2 ^ (g + 1) * den := mul_le_mul_of_nonneg_left hdenLow (two_zpow_pos _).le
  have hlowLog : g - 1 ≤ Int.log 2 ((num : ℚ) / den) :=
    (Int.zpow_le_iff_le_log (by norm_num) hq).mp (by exact_mod_cast hlow)
  have hhighLog : Int.log 2 ((num : ℚ) / den) < g + 1 :=
    (Int.lt_zpow_iff_log_lt (by norm_num) hq).mp (by exact_mod_cast hhigh)
  have htest : (scale num den (-g)).2 ≤ (scale num den (-g)).1 ↔
      g ≤ Int.log 2 ((num : ℚ) / den) := by
    have hpos : (0 : ℚ) < (scale num den (-g)).2 := by exact_mod_cast scale_den_pos (-g) hden
    rw [← Int.zpow_le_iff_le_log (by norm_num) hq, ← Nat.cast_le (α := ℚ), ← one_le_div hpos,
      scale_ratio, zpow_neg, ← div_eq_mul_inv, one_le_div (two_zpow_pos g), Nat.cast_ofNat]
  by_cases hcond : g ≤ Int.log 2 ((num : ℚ) / den)
  · simp only [floorLog2, ← hg, if_pos (htest.mpr hcond)]
    omega
  · simp only [floorLog2, ← hg, if_neg (mt htest.mp hcond)]
    omega

/-- The whole number nearest to a rational number, a tie going to the even one. -/
def nearestEven (q : ℚ) : Nat :=
  if q - ⌊q⌋₊ < 1 / 2 then ⌊q⌋₊
  else if 1 / 2 < q - ⌊q⌋₊ then ⌊q⌋₊ + 1
  else ⌊q⌋₊ + ⌊q⌋₊ % 2

theorem nearestEven_natCast (n : Nat) :
    nearestEven n = n := by
  simp [nearestEven]

theorem roundQuotient_eq_nearestEven
    (num : Nat) {den : Nat}
    (hden : 0 < den) :
    roundQuotient num den = nearestEven ((num : ℚ) / den) := by
  have hd : (0 : ℚ) < den := by exact_mod_cast hden
  have hfloor : ⌊(num : ℚ) / den⌋₊ = num / den := Nat.floor_div_eq_div num den
  have hfract : (num : ℚ) / den - (num / den : Nat) = (num % den : Nat) / den := by
    have hsplit : (num : ℚ) = den * (num / den : Nat) + (num % den : Nat) := by
      exact_mod_cast (Nat.div_add_mod num den).symm
    rw [eq_div_iff hd.ne', sub_mul, div_mul_cancel₀ _ hd.ne']
    linarith
  have hbelow : ((num % den : Nat) : ℚ) / den < 1 / 2 ↔ 2 * (num % den) < den := by
    rw [div_lt_div_iff₀ hd (by norm_num), one_mul, mul_comm]
    norm_cast
  have habove : (1 : ℚ) / 2 < (num % den : Nat) / den ↔ den < 2 * (num % den) := by
    rw [div_lt_div_iff₀ (by norm_num) hd, one_mul, mul_comm ((num % den : Nat) : ℚ)]
    norm_cast
  simp only [roundQuotient, nearestEven, hfloor, hfract, hbelow, habove]

/-- The pattern of the number nearest to a rational number. -/
def patternOf (q : ℚ) : Nat :=
  if q = 0 then 0 else
    let step := max (Int.log 2 q - 52) minExponent
    min ((step - minExponent).toNat * fractionRange + nearestEven (q * 2 ^ (-step)))
      infinityPattern

theorem roundPattern_eq_patternOf
    (num : Nat) {den : Nat}
    (hden : 0 < den) :
    roundPattern num den = patternOf ((num : ℚ) / den) := by
  have hd : (den : ℚ) ≠ 0 := by exact_mod_cast hden.ne'
  by_cases hnum : num = 0
  · simp [roundPattern, patternOf, hnum]
  · have hq : (num : ℚ) / den ≠ 0 := div_ne_zero (by exact_mod_cast hnum) hd
    have hlog := floorLog2_eq_log (Nat.pos_of_ne_zero hnum) hden
    simp only [roundPattern, patternOf, hnum, hq, if_false, hlog,
      roundQuotient_eq_nearestEven _ (scale_den_pos _ hden), scale_ratio]

/-- A mantissa and an exponent that some pattern has: the exponent is in range, and the leading
bit is hidden unless the exponent is the smallest. -/
structure Canonical (mantissa : Nat) (exponent : Int) : Prop where
  minExponent_le : minExponent ≤ exponent
  mantissa_lt : mantissa < 2 * fractionRange
  leading : exponent = minExponent ∨ fractionRange ≤ mantissa

/-- The mantissa and the exponent side by side. -/
def joined (mantissa : Nat) (exponent : Int) : Nat :=
  (exponent - minExponent).toNat * fractionRange + mantissa

/-- A number that has a pattern is rounded to its own pattern. -/
theorem patternOf_canonical
    {mantissa : Nat} {exponent : Int}
    (h : Canonical mantissa exponent)
    (hfinite : joined mantissa exponent < infinityPattern) :
    patternOf ((mantissa : ℚ) * 2 ^ exponent) = joined mantissa exponent := by
  obtain ⟨hmin, hlt, hleading⟩ := h
  by_cases hzero : mantissa = 0
  · have hexponent : exponent = minExponent := by
      rcases hleading with heq | hle
      · exact heq
      · simp [hzero, fractionRange] at hle
    simp [patternOf, joined, hzero, hexponent]
  · have hpos : 0 < mantissa := Nat.pos_of_ne_zero hzero
    have hq : (0 : ℚ) < (mantissa : ℚ) * 2 ^ exponent := by positivity
    obtain ⟨hlow, hhigh⟩ := log2_bounds hpos
    have hlog : Int.log 2 ((mantissa : ℚ) * 2 ^ exponent) = mantissa.log2 + exponent := by
      apply le_antisymm
      · rw [← Int.lt_add_one_iff, ← Int.lt_zpow_iff_log_lt (by norm_num) hq]
        push_cast
        rw [add_right_comm, zpow_add₀ (by norm_num)]
        exact mul_lt_mul_of_pos_right hhigh (two_zpow_pos exponent)
      · rw [← Int.zpow_le_iff_le_log (by norm_num) hq]
        push_cast
        rw [zpow_add₀ (by norm_num)]
        exact mul_le_mul_of_nonneg_right hlow (two_zpow_pos exponent).le
    have hlog2 : mantissa.log2 ≤ 52 := by
      have : mantissa.log2 < 53 := (Nat.log2_lt hzero).mpr hlt
      omega
    have hstep : max ((mantissa.log2 : Int) + exponent - 52) minExponent = exponent := by
      rcases hleading with heq | hle
      · omega
      · have : 52 ≤ mantissa.log2 := (Nat.le_log2 hzero).mpr hle
        omega
    have hmultiple : (mantissa : ℚ) * 2 ^ exponent * 2 ^ (-exponent) = mantissa := by
      rw [mul_assoc, ← zpow_add₀ (by norm_num), add_neg_cancel, zpow_zero, mul_one]
    simp only [patternOf, hq.ne', if_false, hlog, hstep, hmultiple, nearestEven_natCast]
    exact min_eq_left hfinite.le

end Binary64
end TokenStream
