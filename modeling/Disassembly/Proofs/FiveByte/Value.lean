/-
# Five-byte numbers are valued exactly

A number is an integer times a power of two (`Dyadic.toRat`). One with less than 54 bits, of a size
that is neither too large nor too small, has a word of binary64 with just its value
(`Binary64.value?_doubleBits`), and every five-byte number is such a number: its four bytes behind the
exponent are 32 bits, the first of which is taken as one (`Spectrum.toRat_value`).
-/

import Disassembly.FiveByte
import Mathlib.Algebra.Order.Field.Power
import Mathlib.Data.Nat.Bitwise
import Mathlib.Tactic.FieldSimp
import Mathlib.Tactic.Positivity
import Mathlib.Tactic.Ring

namespace Disassembly

namespace Dyadic

variable {x : Dyadic}

/-- The number itself. -/
def toRat (x : Dyadic) : ℚ := (if x.negative then -1 else 1) * x.mantissa * 2 ^ x.exponent

theorem toRat_ofInt (n : Int) : (ofInt n).toRat = n := by
  rcases Int.lt_or_le n 0 with h | h
  · obtain ⟨k, rfl⟩ := Int.eq_negSucc_of_lt_zero h
    simp [ofInt, toRat, Int.negSucc_lt_zero, Int.cast_negSucc]
  · obtain ⟨k, rfl⟩ := Int.eq_ofNat_of_zero_le h
    simp [ofInt, toRat]

@[simp] theorem abs_sign (negative : Bool) : |(if negative then -1 else 1 : ℚ)| = 1 := by
  cases negative with
  | true => simp
  | false => simp

theorem abs_toRat (x : Dyadic) : |x.toRat| = x.mantissa * 2 ^ x.exponent := by
  rw [toRat, mul_assoc, abs_mul, abs_sign, one_mul]
  exact abs_of_nonneg (by positivity)

/-- A number is its absolute value under its sign. -/
theorem sign_mul_abs (x : Dyadic) : (if x.negative then -1 else 1) * |x.toRat| = x.toRat := by
  rw [abs_toRat, toRat, mul_assoc]

theorem denominator_pos (x : Dyadic) : 0 < x.denominator := by
  rw [denominator, Nat.one_shiftLeft]
  exact Nat.two_pow_pos _

/-- The absolute value is the numerator over the denominator. -/
theorem numerator_div_denominator (x : Dyadic) :
    (x.numerator : ℚ) / x.denominator = |x.toRat| := by
  rw [abs_toRat, numerator, denominator, Nat.shiftLeft_eq, Nat.one_shiftLeft]
  obtain ⟨k, hk | hk⟩ := x.exponent.eq_nat_or_neg
  · simp [hk]
  · simp [hk, div_eq_mul_inv]

end Dyadic

namespace Binary64

/-- The value of a word of binary64: a sign bit, an exponent of 11 bits, and a fraction of 52 bits
behind a one, or behind a zero if the exponent is zero. The largest exponent has no values. -/
def value? (bits : Nat) : Option ℚ :=
  let exponent : Nat := bits / 2 ^ 52 % 2 ^ 11
  let fraction : Nat := bits % 2 ^ 52
  let sign : ℚ := if bits / 2 ^ 63 % 2 = 1 then -1 else 1
  if 2 ^ 64 ≤ bits ∨ exponent = 2047 then none
  else if exponent = 0 then some (sign * fraction * 2 ^ (-1074 : Int))
  else some (sign * ((2 ^ 52 + fraction : Nat) : ℚ) * 2 ^ ((exponent : Int) - 1075))

/-- The fields of a word are read back. -/
theorem value?_fields (negative : Bool) {exponent fraction : Nat} (hpos : 0 < exponent)
    (hexponent : exponent < 2047) (hfraction : fraction < 2 ^ 52) :
    value? (negative.toNat * 2 ^ 63 + exponent * 2 ^ 52 + fraction) =
      some ((if negative then -1 else 1) * ((2 ^ 52 + fraction : Nat) : ℚ) *
        2 ^ ((exponent : Int) - 1075)) := by
  have hsign : negative.toNat < 2 := negative.toNat_lt
  have hfield : (negative.toNat * 2 ^ 63 + exponent * 2 ^ 52 + fraction) / 2 ^ 52 % 2 ^ 11 =
      exponent := by omega
  have hlow : (negative.toNat * 2 ^ 63 + exponent * 2 ^ 52 + fraction) % 2 ^ 52 = fraction := by
    omega
  have htop : (negative.toNat * 2 ^ 63 + exponent * 2 ^ 52 + fraction) / 2 ^ 63 % 2 =
      negative.toNat := by omega
  unfold value?
  rw [hfield, hlow, htop]
  dsimp only
  rw [if_neg (by omega), if_neg (by omega)]
  cases negative with
  | true => rfl
  | false => rfl

/-- **The word of a number has its value**, if the number has less than 54 bits and is within the
normal range. -/
theorem value?_doubleBits {x : Dyadic} (hlt : x.mantissa < 2 ^ 53)
    (hmin : -1022 ≤ x.exponent + Nat.log2 x.mantissa)
    (hmax : x.exponent + Nat.log2 x.mantissa ≤ 1023) :
    value? x.doubleBits = some x.toRat := by
  by_cases hzero : x.mantissa = 0
  · have hvalue : value? 0 = some 0 := by simp [value?]
    rw [Dyadic.doubleBits, if_pos hzero, hvalue, Dyadic.toRat, hzero, Nat.cast_zero, mul_zero,
      zero_mul]
  · rw [Dyadic.doubleBits, if_neg hzero]
    dsimp only
    have hlow : 2 ^ Nat.log2 x.mantissa ≤ x.mantissa := Nat.log2_self_le hzero
    have hhigh : x.mantissa < 2 ^ (Nat.log2 x.mantissa + 1) := Nat.lt_log2_self
    have hk : Nat.log2 x.mantissa < 53 := (Nat.log2_lt hzero).2 hlt
    generalize Nat.log2 x.mantissa = k at *
    rw [Nat.shiftLeft_eq, Nat.shiftLeft_eq, Nat.shiftLeft_eq, Nat.one_shiftLeft]
    -- The first bit is cut off and the others are moved up to 52 bits.
    have hscale : 2 ^ k * 2 ^ (52 - k) = 2 ^ 52 := by rw [← Nat.pow_add]; congr 1; omega
    have hmoved : (x.mantissa - 2 ^ k) * 2 ^ (52 - k) < 2 ^ 52 := by
      rw [← hscale]
      exact Nat.mul_lt_mul_of_pos_right (by rw [pow_succ] at hhigh; omega) (Nat.two_pow_pos _)
    rw [value?_fields x.negative (by omega) (by omega) hmoved]
    have hbits : 2 ^ 52 + (x.mantissa - 2 ^ k) * 2 ^ (52 - k) = x.mantissa * 2 ^ (52 - k) := by
      rw [← hscale, ← Nat.add_mul]
      congr 1
      omega
    have hexponent : (((x.exponent + k + 1023).toNat : Nat) : Int) - 1075 =
        x.exponent - (52 - k : Nat) := by omega
    rw [hbits, hexponent, Dyadic.toRat, zpow_sub₀ (by norm_num), zpow_natCast]
    push_cast
    congr 1
    field_simp

end Binary64

namespace Spectrum

/-- The four bytes behind the exponent, high byte first. -/
def wordOf (b1 b2 b3 b4 : UInt8) : Nat :=
  0x1000000 * b1.toNat + 0x10000 * b2.toNat + 0x100 * b3.toNat + b4.toNat

/-- The integer of a number with the exponent zero. -/
def smallInteger (b1 b2 b3 : UInt8) : Int :=
  if b1 = 0xFF then (b2.toNat + 256 * b3.toNat : Int) - 0x10000 else b2.toNat + 256 * b3.toNat

/-- The number that five bytes stand for: an integer if the first byte is zero, and otherwise a
fraction of 32 bits, the first of them set, times a power of two, the sign in place of that bit. -/
def number (b0 b1 b2 b3 b4 : UInt8) : ℚ :=
  if b0 = 0 then smallInteger b1 b2 b3
  else (-1) ^ (wordOf b1 b2 b3 b4 / 2 ^ 31) * (((wordOf b1 b2 b3 b4 ||| 2 ^ 31 : Nat) : ℚ) / 2 ^ 32) *
    2 ^ ((b0.toNat : Int) - 128)

variable (b0 b1 b2 b3 b4 : UInt8)

theorem natAbs_smallInteger_le : (smallInteger b1 b2 b3).natAbs ≤ 0x10000 := by
  have h2 := b2.toNat_lt
  have h3 := b3.toNat_lt
  unfold smallInteger
  split
  · omega
  · omega

/-- A word with its top bit set. -/
theorem or_topBit {w : Nat} (h : w < 2 ^ 32) : w ||| 2 ^ 31 = 2 ^ 31 + w % 2 ^ 31 := by
  have hlow : w % 2 ^ 31 < 2 ^ 31 := Nat.mod_lt _ (by decide)
  have hset : 2 ^ 31 + w % 2 ^ 31 = 2 ^ 31 ||| w % 2 ^ 31 := by
    simpa using Nat.two_pow_add_eq_or_of_lt hlow 1
  rcases Nat.lt_or_ge w (2 ^ 31) with hw | hw
  · rw [hset, Nat.mod_eq_of_lt hw, Nat.or_comm]
  · have hsplit : w = 2 ^ 31 + w % 2 ^ 31 := by omega
    rw [← hsplit, hsplit, hset, Nat.or_comm, ← Nat.or_assoc, Nat.or_self]

theorem value_zero : value 0 b1 b2 b3 b4 = Dyadic.ofInt (smallInteger b1 b2 b3) := if_pos rfl

variable {b0}

/-- The parts of a number with an exponent. -/
theorem value_of_ne (h : b0 ≠ 0) : value b0 b1 b2 b3 b4 =
    ⟨decide (128 ≤ b1.toNat), wordOf b1 b2 b3 b4 ||| 2 ^ 31, (b0.toNat : Int) - 160⟩ := by
  have h1 := b1.toNat_lt
  have h2 := b2.toNat_lt
  have h3 := b3.toNat_lt
  have h4 := b4.toNat_lt
  rw [value, if_neg h, or_topBit (by unfold wordOf; omega), wordOf]
  simp only [Dyadic.mk.injEq, true_and, and_true]
  omega

theorem mantissa_of_ne (h : b0 ≠ 0) :
    2 ^ 31 ≤ (value b0 b1 b2 b3 b4).mantissa ∧ (value b0 b1 b2 b3 b4).mantissa < 2 ^ 32 := by
  have h1 := b1.toNat_lt
  have h2 := b2.toNat_lt
  have h3 := b3.toNat_lt
  have h4 := b4.toNat_lt
  rw [value_of_ne b1 b2 b3 b4 h, or_topBit (by unfold wordOf; omega)]
  show 2 ^ 31 ≤ 2 ^ 31 + wordOf b1 b2 b3 b4 % 2 ^ 31 ∧ 2 ^ 31 + wordOf b1 b2 b3 b4 % 2 ^ 31 < 2 ^ 32
  omega

variable (b0)

/-- **A five-byte number is valued exactly.** -/
theorem toRat_value : (value b0 b1 b2 b3 b4).toRat = number b0 b1 b2 b3 b4 := by
  have h1 := b1.toNat_lt
  have h2 := b2.toNat_lt
  have h3 := b3.toNat_lt
  have h4 := b4.toNat_lt
  by_cases h : b0 = 0
  · subst h
    rw [value_zero, Dyadic.toRat_ofInt, number, if_pos rfl]
  · have hexponent : (b0.toNat : Int) - 160 = (b0.toNat : Int) - 128 - (32 : Nat) := by omega
    have hpower : (2 : ℚ) ^ ((b0.toNat : Int) - 160) = 2 ^ ((b0.toNat : Int) - 128) / 2 ^ 32 := by
      rw [hexponent, zpow_sub₀ (by norm_num), zpow_natCast]
    rw [value_of_ne b1 b2 b3 b4 h, number, if_neg h, Dyadic.toRat, hpower]
    by_cases hsign : 128 ≤ b1.toNat
    · have htop : wordOf b1 b2 b3 b4 / 2 ^ 31 = 1 := by unfold wordOf; omega
      rw [htop]
      simp only [hsign, decide_true, if_true]
      ring
    · have htop : wordOf b1 b2 b3 b4 / 2 ^ 31 = 0 := by unfold wordOf; omega
      rw [htop]
      simp only [hsign, decide_false, Bool.false_eq_true, if_false]
      ring

/-- **The value of a five-byte number is held by binary64**, whatever the bytes. -/
theorem value?_doubleBits_value :
    Binary64.value? (value b0 b1 b2 b3 b4).doubleBits = some (number b0 b1 b2 b3 b4) := by
  rw [← toRat_value]
  by_cases h : b0 = 0
  · subst h
    have hsmall := natAbs_smallInteger_le b1 b2 b3
    have hlog : Nat.log2 (smallInteger b1 b2 b3).natAbs < 17 := by
      by_cases hzero : (smallInteger b1 b2 b3).natAbs = 0
      · rw [hzero]
        decide
      · exact (Nat.log2_lt hzero).2 (by omega)
    rw [value_zero]
    refine Binary64.value?_doubleBits ?_ ?_ ?_
    · show (smallInteger b1 b2 b3).natAbs < 2 ^ 53
      omega
    · show -1022 ≤ (0 : Int) + Nat.log2 (smallInteger b1 b2 b3).natAbs
      omega
    · show (0 : Int) + Nat.log2 (smallInteger b1 b2 b3).natAbs ≤ 1023
      omega
  · obtain ⟨hlow, hhigh⟩ := mantissa_of_ne b1 b2 b3 b4 h
    have h0 := b0.toNat_lt
    have hexponent : (value b0 b1 b2 b3 b4).exponent = (b0.toNat : Int) - 160 := by
      rw [value_of_ne b1 b2 b3 b4 h]
    have hlog : Nat.log2 (value b0 b1 b2 b3 b4).mantissa < 32 :=
      (Nat.log2_lt (by omega)).2 hhigh
    exact Binary64.value?_doubleBits (by omega) (by omega) (by omega)

end Spectrum
end Disassembly
