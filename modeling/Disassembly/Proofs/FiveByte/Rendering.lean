/-
# Five-byte numbers are shown to nine significant digits

The nine digits of a number with an exponent are laid out with the point in its place, or with the
exponent if the first digit stands too far from the point (`exists_layout`). The text is read back as
a number that is off by half a unit of the ninth digit at most (`Shows`). A number without an exponent
is an integer, and is shown as it is.
-/

import Disassembly.Proofs.FiveByte.Decimal
import Disassembly.Proofs.FiveByte.Rounding
import Disassembly.Proofs.FiveByte.Value

namespace Disassembly

namespace Significant

open Decimal (AllDigits Layout power sign)

variable {n : Nat} {y : Int}

/-! ### The digits -/

theorem allDigits_fixedDigits (count n : Nat) : AllDigits (Numeral.fixedDigits 10 count n) := by
  have hdigit : ∀ k : Fin 10, (Numeral.digit k).isDigit = true := by decide
  induction count generalizing n with
  | zero => exact fun c hc => absurd hc List.not_mem_nil
  | succ count ih =>
    intro c hc
    rw [Numeral.fixedDigits, List.mem_append, List.mem_singleton] at hc
    rcases hc with hc | rfl
    · exact ih _ c hc
    · exact hdigit ⟨n % 10, Nat.mod_lt _ (by decide)⟩

/-- Digits that are enough for a number have its value. -/
theorem ofDigitChars_fixedDigits {count : Nat} (h : n < 10 ^ count) :
    Nat.ofDigitChars 10 (Numeral.fixedDigits 10 count n) 0 = n := by
  have hvalue := @Numeral.valueFrom?_fixedDigits 10 (by decide) (by decide) 0 count n
  rw [Numeral.valueFrom?_of_isDigit 10 (allDigits_fixedDigits count n), Nat.mul_zero, Nat.zero_add,
    Nat.mod_eq_of_lt h] at hvalue
  exact Option.some.inj hvalue

/-- The text behind the sign, told by digits and their exponent. -/
def textOf (digits : List Char) (y : Int) : List Char :=
  if -5 ≤ y ∧ y < count then positional digits y else scientific digits y

/-- **The digits are laid out**, with an exponent just if the first one stands too far from the
point. -/
theorem exists_layout {digits : List Char} (hlength : digits.length = count) (y : Int) :
    ∃ whole fraction exponent, Layout digits y whole fraction exponent ∧
      textOf digits y = withPoint whole fraction ++ power exponent ∧
      exponent = if y < -5 ∨ 8 < y then some y else none := by
  have hcount : (count : Int) = 9 := rfl
  unfold textOf
  split
  · rename_i hnear
    rw [if_neg (by omega)]
    unfold positional
    split
    · rename_i hneg
      exact ⟨_, _, none, Decimal.layout_small hneg, (List.append_nil _).symm, rfl⟩
    · rename_i hnonneg
      exact ⟨_, _, none, Decimal.layout_split (by omega) (by omega), (List.append_nil _).symm, rfl⟩
  · rename_i hfar
    rw [if_pos (by omega)]
    have hne : digits ≠ [] := List.ne_nil_of_length_pos (by rw [hlength]; decide)
    exact ⟨_, _, some y, Decimal.layout_power y hne, rfl, rfl⟩

/-! ### The number -/

/-- A decimal shows a number to nine significant digits. -/
structure Shows (d : Decimal) (v : ℚ) : Prop where
  /-- It is off by half a unit of the ninth digit of the number at most. -/
  near : ∃ x, IsExponent |v| x ∧ |d.value - v| ≤ 10 ^ (x - 8) / 2
  length_le : d.significant.length ≤ 9
  getLast_ne : d.fraction.getLast? ≠ some '0'
  /-- The exponent is written if it is below -5 or above 8. -/
  exponent_eq : ∃ y, IsExponent |d.value| y ∧
    d.exponent = if y < -5 ∨ 8 < y then some y else none

/-- The text of a number that is not zero. -/
theorem toList_render {x : Dyadic} (h : x.mantissa ≠ 0) :
    (render x).toList = sign x.negative ++
      textOf (Numeral.fixedDigits 10 count (rounded count x.numerator x.denominator).1)
        (rounded count x.numerator x.denominator).2 := by
  rw [render, if_neg h]
  dsimp only
  rw [String.toList_append, String.toList_ofList, textOf]
  congr 1
  cases x.negative with
  | true => rfl
  | false => rfl

/-- Nine digits have the exponent of the first one. -/
theorem isExponent_digits {value : Nat} (hlow : 10 ^ 8 ≤ value) (hhigh : value < 10 ^ 9) (y : Int) :
    IsExponent ((value : ℚ) * 10 ^ (y - 8)) y := by
  have hten : (0 : ℚ) < 10 ^ (y - 8) := by positivity
  have hlow' : (10 : ℚ) ^ 8 ≤ value := by exact_mod_cast hlow
  have hhigh' : (value : ℚ) < 10 ^ 9 := by exact_mod_cast hhigh
  have hfirst : (10 : ℚ) ^ y = 10 ^ 8 * 10 ^ (y - 8) := by
    rw [← zpow_natCast, ← zpow_add₀ (by norm_num)]
    congr 1
    omega
  have hnext : (10 : ℚ) ^ (y + 1) = 10 ^ 9 * 10 ^ (y - 8) := by
    rw [← zpow_natCast, ← zpow_add₀ (by norm_num)]
    congr 1
    omega
  constructor
  · rw [hfirst]
    exact mul_le_mul_of_nonneg_right hlow' hten.le
  · rw [hnext]
    exact mul_lt_mul_of_pos_right hhigh' hten

/-- **Rounded digits show their number**, with its sign. -/
theorem exists_shows_of_rounded {x : Dyadic} {value : Nat} (h : Rounded 8 |x.toRat| value y)
    (hbound : y.natAbs ≤ 65) :
    ∃ d, Decimal.read? (sign x.negative ++ textOf (Numeral.fixedDigits 10 count value) y) = some d ∧
      Shows d x.toRat := by
  obtain ⟨hlow, hhigh, e, he, hnear⟩ := h
  have hlength := Numeral.length_fixedDigits 10 count value
  obtain ⟨whole, fraction, exponent, hlayout, htext, hexponent⟩ := exists_layout hlength y
  have hsmall : ∀ e ∈ exponent, e.natAbs < 0x8000000000000000 := by
    intro e he
    rw [hexponent] at he
    split at he
    · obtain rfl := Option.some.inj he
      omega
    · exact absurd he (by simp)
  obtain ⟨d, hd, hexp, hvalue, hcount, hlast⟩ :=
    hlayout.exists_read? x.negative (allDigits_fixedDigits count value) hsmall
  have hscale : y + 1 - (count : Int) = y - 8 := by
    have : (count : Int) = 9 := rfl
    omega
  rw [ofDigitChars_fixedDigits (show value < 10 ^ count from hhigh), hlength, hscale, mul_assoc] at hvalue
  rw [htext]
  refine ⟨d, hd, ⟨e, he, ?_⟩, hcount.trans_eq hlength, hlast, y, ?_, hexp.trans hexponent⟩
  · -- Both have the same sign, so they are as far apart as their absolute values.
    rw [← x.sign_mul_abs, hvalue, ← mul_sub, abs_mul, Dyadic.abs_sign, one_mul]
    exact hnear
  · rw [hvalue, abs_mul, Dyadic.abs_sign, one_mul, abs_of_nonneg (by positivity)]
    exact isExponent_digits hlow hhigh y

/-- **A number is shown to nine significant digits**, if it is neither too large nor too small. -/
theorem exists_shows {x : Dyadic} (hpos : 0 < x.numerator)
    (hsmall : x.denominator ≤ x.numerator * 10 ^ 64)
    (hlarge : x.numerator < x.denominator * 10 ^ 64) :
    ∃ d, Decimal.read? (render x).toList = some d ∧ Shows d x.toRat := by
  have hmantissa : x.mantissa ≠ 0 := by
    intro hzero
    rw [Dyadic.numerator, hzero, Nat.zero_shiftLeft] at hpos
    exact absurd hpos (Nat.lt_irrefl 0)
  have hrounded := rounded_spec 8 hpos x.denominator_pos hsmall
  rw [x.numerator_div_denominator] at hrounded
  rw [toList_render hmantissa]
  exact exists_shows_of_rounded hrounded (natAbs_rounded_le count x.denominator_pos hlarge)

end Significant

namespace Spectrum

open Significant (Shows)

/-- **Five-byte numbers are valued exactly and shown to nine significant digits.** The value is the
number the bytes stand for, as a number and as a word of binary64. If the first byte is not zero, the
text is read back as a decimal that shows the number to nine significant digits. Otherwise it is the
integer. -/
theorem renderFloat_shows (b0 b1 b2 b3 b4 : UInt8) :
    (value b0 b1 b2 b3 b4).toRat = number b0 b1 b2 b3 b4 ∧
      Binary64.value? (value b0 b1 b2 b3 b4).doubleBits = some (number b0 b1 b2 b3 b4) ∧
      (b0 ≠ 0 → ∃ d, Decimal.read? (renderFloat b0 b1 b2 b3 b4).toList = some d ∧
        Shows d (number b0 b1 b2 b3 b4)) ∧
      (b0 = 0 → renderFloat b0 b1 b2 b3 b4 = Numeral.integer (smallInteger b1 b2 b3) ∧
        Numeral.readNumber? (renderFloat b0 b1 b2 b3 b4).toList = some (smallInteger b1 b2 b3)) := by
  refine ⟨toRat_value b0 b1 b2 b3 b4, value?_doubleBits_value b0 b1 b2 b3 b4, fun h => ?_, ?_⟩
  · obtain ⟨hlow, hhigh⟩ := mantissa_of_ne b1 b2 b3 b4 h
    have h0 := b0.toNat_lt
    have hexponent : (value b0 b1 b2 b3 b4).exponent = (b0.toNat : Int) - 160 := by
      rw [value_of_ne b1 b2 b3 b4 h]
    have hnumerator : 2 ^ 31 ≤ (value b0 b1 b2 b3 b4).numerator ∧
        (value b0 b1 b2 b3 b4).numerator < 2 ^ 32 * 2 ^ 96 := by
      rw [Dyadic.numerator, Nat.shiftLeft_eq]
      have hpower : 2 ^ (value b0 b1 b2 b3 b4).exponent.toNat ≤ 2 ^ 96 :=
        Nat.pow_le_pow_right (by decide) (by omega)
      exact ⟨hlow.trans (Nat.le_mul_of_pos_right _ (Nat.two_pow_pos _)),
        Nat.mul_lt_mul_of_lt_of_le hhigh hpower (Nat.two_pow_pos _)⟩
    have hdenominator : (value b0 b1 b2 b3 b4).denominator ≤ 2 ^ 160 := by
      rw [Dyadic.denominator, Nat.one_shiftLeft]
      exact Nat.pow_le_pow_right (by decide) (by omega)
    have hpos := (value b0 b1 b2 b3 b4).denominator_pos
    rw [renderFloat, if_neg h, ← toRat_value]
    exact Significant.exists_shows (by omega) (by omega) (by omega)
  · rintro rfl
    have hsmall := natAbs_smallInteger_le b1 b2 b3
    have htext : renderFloat 0 b1 b2 b3 b4 = Numeral.integer (smallInteger b1 b2 b3) := by
      rw [renderFloat, if_pos rfl, value_zero]
      generalize smallInteger b1 b2 b3 = n
      show Numeral.integer (if decide (n < 0) = true then -(n.natAbs : Int) else n.natAbs) = _
      congr 1
      split
      · rename_i hneg
        have := of_decide_eq_true hneg
        omega
      · rename_i hnonneg
        have := of_decide_eq_false (Bool.eq_false_of_not_eq_true hnonneg)
        omega
    refine ⟨htext, ?_⟩
    rw [htext]
    exact Numeral.readNumber?_integer (by omega)

/-- A number just below one, whose nine nines carry over. -/
example : renderFloat 0x80 0x7F 0xFF 0xFF 0xFF = "1" := by decide +kernel

/-- The first nine digits of pi, and minus one. -/
theorem renderFloat_shows_pi :
    renderFloat 0x82 0x49 0x0F 0xDA 0xA2 = "3.14159265" ∧
      (∃ d, Decimal.read? "3.14159265".toList = some d ∧
        Shows d (number 0x82 0x49 0x0F 0xDA 0xA2)) ∧
      renderFloat 0 0xFF 0xFF 0xFF 0 = "-1" ∧ Numeral.readNumber? "-1".toList = some (-1) := by
  have hpi : renderFloat 0x82 0x49 0x0F 0xDA 0xA2 = "3.14159265" := by decide +kernel
  have hone : renderFloat 0 0xFF 0xFF 0xFF 0 = "-1" := by decide +kernel
  have hsmall : smallInteger 0xFF 0xFF 0xFF = -1 := by decide
  have hread := (renderFloat_shows 0x82 0x49 0x0F 0xDA 0xA2).2.2.1 (by decide)
  have hinteger := (renderFloat_shows 0 0xFF 0xFF 0xFF 0).2.2.2 rfl
  rw [hpi] at hread
  rw [hone, hsmall] at hinteger
  exact ⟨hpi, hread, hone, hinteger.2⟩

end Spectrum
end Disassembly
