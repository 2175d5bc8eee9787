/-
# Rounding to significant digits

A positive fraction is scaled by a power of ten that gives it as many digits before the point as are
wanted, and the scaled fraction is rounded. Rounding moves it by a half at most (`abs_roundDiv_sub_le`),
so the digits are off by half a unit of the last one (`Rounded`). Only a fraction just below a power
of ten can gain a digit; its digits are then those of the power, one exponent up (`rounded_spec`).
-/

import Disassembly.FiveByte
import Mathlib.Algebra.Order.Field.Power
import Mathlib.Data.Rat.Cast.Order
import Mathlib.Tactic.FieldSimp
import Mathlib.Tactic.Linarith
import Mathlib.Tactic.Positivity
import Mathlib.Tactic.Ring

namespace Disassembly
namespace Significant

variable {n d : Nat}

/-! ### Division -/

/-- Twice the remainder is within the divisor, one way or the other. -/
theorem roundDiv_bounds (n : Nat) (hd : 0 < d) :
    2 * (d * roundDiv n d) ≤ 2 * n + d ∧ 2 * n ≤ 2 * (d * roundDiv n d) + d := by
  have hsplit := Nat.div_add_mod n d
  have hlt := Nat.mod_lt n hd
  unfold roundDiv
  dsimp only
  split
  · rw [Nat.mul_add, Nat.mul_one]
    omega
  · omega

/-- **Rounding moves a fraction by a half at most.** -/
theorem abs_roundDiv_sub_le (n : Nat) (hd : 0 < d) : |(roundDiv n d : ℚ) - n / d| ≤ 1 / 2 := by
  obtain ⟨habove, hbelow⟩ := roundDiv_bounds n hd
  have hdpos : (0 : ℚ) < d := by exact_mod_cast hd
  have habove' : 2 * (d * (roundDiv n d : ℚ)) ≤ 2 * n + d := by exact_mod_cast habove
  have hbelow' : 2 * (n : ℚ) ≤ 2 * (d * roundDiv n d) + d := by exact_mod_cast hbelow
  rw [abs_le]
  constructor
  · rw [neg_le_sub_iff_le_add, div_le_iff₀ hdpos]
    linarith
  · rw [sub_le_iff_le_add, ← sub_le_iff_le_add', le_div_iff₀ hdpos]
    linarith

/-! ### The decimal exponent -/

/-- The steps are enough, and no fewer are. -/
theorem stepsUpTo_spec {fuel : Nat} (h : d ≤ n * 10 ^ fuel) :
    d ≤ n * 10 ^ stepsUpTo n d fuel ∧ ∀ k < stepsUpTo n d fuel, n * 10 ^ k < d := by
  induction fuel generalizing n with
  | zero => exact ⟨h, fun k hk => absurd hk (Nat.not_lt_zero k)⟩
  | succ fuel ih =>
    have hstep (k : Nat) : 10 * n * 10 ^ k = n * 10 ^ (k + 1) := by rw [pow_succ]; ring
    rw [stepsUpTo]
    split
    · rename_i hreached
      exact ⟨by simpa using hreached, fun k hk => absurd hk (Nat.not_lt_zero k)⟩
    · rename_i hbelow
      obtain ⟨henough, hfewer⟩ := ih (n := 10 * n) (by rwa [hstep])
      refine ⟨by rwa [hstep] at henough, fun k hk => ?_⟩
      cases k with
      | zero => simpa using hbelow
      | succ k =>
        rw [← hstep]
        exact hfewer k (by omega)

theorem stepsUpTo_le (n d fuel : Nat) : stepsUpTo n d fuel ≤ fuel := by
  induction fuel generalizing n with
  | zero => exact Nat.le_refl 0
  | succ fuel ih =>
    rw [stepsUpTo]
    split
    · exact Nat.zero_le _
    · exact Nat.succ_le_succ (ih _)

/-- A power of ten with a negative exponent, as a fraction of naturals. -/
theorem ten_zpow (s : Int) : (10 : ℚ) ^ s = 10 ^ s.toNat / 10 ^ (-s).toNat := by
  obtain ⟨k, rfl | rfl⟩ := s.eq_nat_or_neg
  · simp
  · simp

/-- The exponent of a positive number: where its first digit stands. -/
def IsExponent (v : ℚ) (x : Int) : Prop := 10 ^ x ≤ v ∧ v < 10 ^ (x + 1)

/-- **A positive fraction above `10 ^ -64` has its exponent.** -/
theorem isExponent_exponent (hn : 0 < n) (hd : 0 < d) (hsmall : d ≤ n * 10 ^ 64) :
    IsExponent (n / d) (exponent n d) := by
  have hdpos : (0 : ℚ) < d := by exact_mod_cast hd
  unfold exponent
  split
  · -- The number of digits before the point is one more than the exponent.
    rename_i hle
    have hpos : 0 < n / d := Nat.div_pos hle hd
    obtain ⟨k, hk⟩ : ∃ k, (Nat.toDigits 10 (n / d)).length = k + 1 :=
      Nat.exists_eq_succ_of_ne_zero (by simp [Nat.toDigits_ne_nil])
    have hbelow : n / d < 10 ^ (k + 1) :=
      (Nat.length_toDigits_le_iff (by decide) (Nat.succ_pos k)).1 hk.le
    have habove : 10 ^ k ≤ n / d := by
      rcases Nat.eq_zero_or_pos k with rfl | hkpos
      · exact hpos
      · by_contra hlt
        have := (Nat.length_toDigits_le_iff (b := 10) (by decide) hkpos).2 (Nat.lt_of_not_le hlt)
        omega
    rw [hk]
    have hx : ((k + 1 : Nat) : Int) - 1 = (k : Int) := by omega
    rw [hx]
    constructor
    · rw [zpow_natCast, le_div_iff₀ hdpos]
      exact_mod_cast (Nat.le_div_iff_mul_le hd).1 habove
    · rw [← Nat.cast_succ, zpow_natCast, div_lt_iff₀ hdpos]
      exact_mod_cast (Nat.div_lt_iff_lt_mul hd).1 hbelow
  · -- The steps up to one are the exponent of a fraction below one.
    rename_i hlt
    obtain ⟨henough, hfewer⟩ := stepsUpTo_spec hsmall
    obtain ⟨k, hk⟩ : ∃ k, stepsUpTo n d 64 = k + 1 := by
      refine Nat.exists_eq_succ_of_ne_zero fun hzero => hlt ?_
      rw [hzero] at henough
      simpa using henough
    have hlast := hfewer k (by omega)
    rw [hk] at henough ⊢
    have hx : -((k + 1 : Nat) : Int) + 1 = -(k : Int) := by omega
    constructor
    · rw [zpow_neg, zpow_natCast, inv_le_comm₀ (by positivity) (by positivity), inv_div,
        div_le_iff₀ (by exact_mod_cast hn), mul_comm]
      exact_mod_cast henough
    · rw [hx, zpow_neg, zpow_natCast, div_lt_iff₀ hdpos, inv_mul_eq_div, lt_div_iff₀ (by positivity)]
      exact_mod_cast hlast

/-- The exponent of a fraction that is neither too large nor too small is small. -/
theorem natAbs_exponent_le (hd : 0 < d) (hlarge : n < d * 10 ^ 64) : (exponent n d).natAbs ≤ 64 := by
  unfold exponent
  split
  · have hlength : (Nat.toDigits 10 (n / d)).length ≤ 64 :=
      (Nat.length_toDigits_le_iff (by decide) (by decide)).2
        ((Nat.div_lt_iff_lt_mul hd).2 (by rwa [Nat.mul_comm]))
    omega
  · have := stepsUpTo_le n d 64
    omega

/-! ### Rounded digits -/

/-- A value of `c + 1` digits and its exponent, off the number by half a unit of the last digit of
the number at most. -/
structure Rounded (c : Nat) (v : ℚ) (value : Nat) (y : Int) : Prop where
  le_value : 10 ^ c ≤ value
  value_lt : value < 10 ^ (c + 1)
  near : ∃ x, IsExponent v x ∧ |value * 10 ^ (y - c) - v| ≤ 10 ^ (x - c) / 2

/-- Scaled to `c + 1` digits before the point. -/
theorem IsExponent.scaled {v : ℚ} {x : Int} (h : IsExponent v x) (c : Nat) :
    10 ^ c ≤ v * 10 ^ (c - x) ∧ v * 10 ^ (c - x) < 10 ^ (c + 1) := by
  have hten : (0 : ℚ) < 10 ^ ((c : Int) - x) := by positivity
  constructor
  · have hlow := mul_le_mul_of_nonneg_right h.1 hten.le
    rwa [← zpow_add₀ (by norm_num), show x + (c - x) = (c : Int) by omega, zpow_natCast] at hlow
  · have hhigh := mul_lt_mul_of_pos_right h.2 hten
    rwa [← zpow_add₀ (by norm_num), show x + 1 + (c - x) = ((c + 1 : Nat) : Int) by omega,
      zpow_natCast] at hhigh

/-- Scaled back, a half is half a unit of the last digit. -/
theorem near_of_scaled {v a : ℚ} {s : Int} (h : |a - v * 10 ^ s| ≤ 1 / 2) :
    |a * 10 ^ (-s) - v| ≤ 10 ^ (-s) / 2 := by
  have hten : (0 : ℚ) < 10 ^ (-s) := by positivity
  have hback : a * 10 ^ (-s) - v = (a - v * 10 ^ s) * 10 ^ (-s) := by
    rw [zpow_neg]
    field_simp
  rw [hback, abs_mul, abs_of_pos hten]
  have := mul_le_mul_of_nonneg_right h hten.le
  linarith

/-- The fraction that is rounded is the one scaled by the power of ten. -/
theorem cast_scaled_div (n d : Nat) (s : Int) :
    ((n * 10 ^ s.toNat : Nat) : ℚ) / ((d * 10 ^ (-s).toNat : Nat) : ℚ) = n / d * 10 ^ s := by
  rw [ten_zpow s]
  push_cast
  rw [mul_div_mul_comm]

/-- **A fraction is rounded to its first digits**, also when they carry over. -/
theorem rounded_spec (c : Nat) (hn : 0 < n) (hd : 0 < d) (hsmall : d ≤ n * 10 ^ 64) :
    Rounded c (n / d) (rounded (c + 1) n d).1 (rounded (c + 1) n d).2 := by
  have hexp := isExponent_exponent hn hd hsmall
  unfold rounded
  generalize exponent n d = x at hexp
  obtain ⟨hlow, hhigh⟩ := hexp.scaled c
  have hshift : ((c + 1 : Nat) : Int) - 1 - x = c - x := by omega
  simp only [hshift, Nat.pow_eq]
  have hnear := abs_roundDiv_sub_le (n * 10 ^ ((c : Int) - x).toNat)
    (d := d * 10 ^ (-((c : Int) - x)).toNat) (by positivity)
  rw [cast_scaled_div] at hnear
  generalize roundDiv _ _ = value at hnear ⊢
  obtain ⟨hfrom, hto⟩ := abs_le.1 hnear
  have hge : 10 ^ c ≤ value := by
    by_contra hlt
    have hlt' : (value : ℚ) + 1 ≤ 10 ^ c := by exact_mod_cast Nat.lt_of_not_le hlt
    linarith
  have hle : value ≤ 10 ^ (c + 1) := by
    by_contra hgt
    have hgt' : (10 : ℚ) ^ (c + 1) + 1 ≤ value := by exact_mod_cast Nat.lt_of_not_le hgt
    linarith
  have hback := near_of_scaled hnear
  rw [neg_sub] at hback
  split
  · -- All digits were nines: the value is a power of ten, which has one digit more.
    rename_i hcarry
    refine ⟨Nat.le_refl _, Nat.pow_lt_pow_right (by decide) (Nat.lt_succ_self c), x, hexp, ?_⟩
    have hsame : ((10 ^ c : Nat) : ℚ) * 10 ^ (x + 1 - c) = value * 10 ^ (x - c) := by
      rw [hcarry, show x + 1 - (c : Int) = x - c + 1 by omega, zpow_add_one₀ (by norm_num)]
      push_cast
      ring
    show |((10 ^ c : Nat) : ℚ) * 10 ^ (x + 1 - c) - n / d| ≤ _
    rw [hsame]
    exact hback
  · rename_i hcarry
    exact ⟨hge, Nat.lt_of_le_of_ne hle hcarry, x, hexp, hback⟩

/-- The exponent after rounding is small, as the one before. -/
theorem natAbs_rounded_le (count : Nat) (hd : 0 < d) (hlarge : n < d * 10 ^ 64) :
    (rounded count n d).2.natAbs ≤ 65 := by
  have := natAbs_exponent_le hd hlarge
  unfold rounded
  dsimp only
  split
  · show (exponent n d + 1).natAbs ≤ 65
    omega
  · show (exponent n d).natAbs ≤ 65
    omega

end Significant
end Disassembly
