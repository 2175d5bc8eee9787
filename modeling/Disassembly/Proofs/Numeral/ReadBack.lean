/-
# Numbers are read back

A number that is written in a fixed number of hexadecimal digits is read back, if it fits in them
(`readHex?_fixedDigits`), and so is a number in decimal, without a sign (`readCount?_decimal`) or
with one (`readNumber?_integer`). The digits of both are letters and digits of ASCII, and nothing
else is read as a hexadecimal number (`readHex?_eq_some`).
-/

import Disassembly.Numeral.Read
import Disassembly.Numeral.Render
import Disassembly.Proofs.Text.Split
import Mathlib.Algebra.Ring.Nat

namespace Disassembly
namespace Numeral

/-- A hexadecimal digit is below sixteen. -/
theorem hexValue?_lt {c : Char} {d : Nat} (h : hexValue? c = some d) : d < 16 := by
  unfold hexValue? at h
  split at h
  · rename_i hc
    have hlast : c.toNat ≤ 57 := hc.2
    obtain rfl := Option.some.inj h
    change c.toNat - 48 < 16
    omega
  · split at h
    · rename_i hc
      have hlast : c.toNat ≤ 102 := hc.2
      obtain rfl := Option.some.inj h
      change c.toNat - 97 + 10 < 16
      omega
    · split at h
      · rename_i hc
        have hlast : c.toNat ≤ 70 := hc.2
        obtain rfl := Option.some.inj h
        change c.toNat - 65 + 10 < 16
        omega
      · exact absurd h (by simp)

/-- A digit has its value. -/
theorem hexValue?_digit {n : Nat} (h : n < 16) : hexValue? (digit n) = some n := by
  have hall : ∀ n : Fin 16, hexValue? (digit n) = some n.val := by decide
  exact hall ⟨n, h⟩

theorem isAlphanum_digit {n : Nat} (h : n < 16) : (digit n).isAlphanum = true := by
  have hall : ∀ n : Fin 16, (digit n).isAlphanum = true := by decide
  exact hall ⟨n, h⟩

@[simp] theorem length_fixedDigits (radix count n : Nat) :
    (fixedDigits radix count n).length = count := by
  induction count generalizing n with
  | zero => rfl
  | succ count ih => rw [fixedDigits, List.length_append, ih, List.length_singleton]

theorem isAlphanum_of_mem_fixedDigits {count n : Nat} {c : Char} (h : c ∈ fixedDigits 16 count n) :
    c.isAlphanum = true := by
  induction count generalizing n with
  | zero => exact absurd h List.not_mem_nil
  | succ count ih =>
    rw [fixedDigits, List.mem_append, List.mem_singleton] at h
    rcases h with h | rfl
    · exact ih h
    · exact isAlphanum_digit (Nat.mod_lt _ (by decide))

/-- The value of digits in a base, after the value read so far. -/
def valueFrom? (radix value : Nat) : List Char → Option Nat
  | [] => some value
  | c :: cs => (hexValue? c).bind fun d => valueFrom? radix (radix * value + d) cs

theorem valueFrom?_append (radix value : Nat) (xs ys : List Char) :
    valueFrom? radix value (xs ++ ys) =
      (valueFrom? radix value xs).bind fun v => valueFrom? radix v ys := by
  induction xs generalizing value with
  | nil => rfl
  | cons x xs ih =>
    rw [List.cons_append, valueFrom?, valueFrom?]
    cases hexValue? x with
    | none => rfl
    | some d => exact ih _

/-- The value of a fixed number of digits behind others. -/
theorem valueFrom?_fixedDigits {radix : Nat} (hpos : 0 < radix) (hradix : radix ≤ 16)
    (value count n : Nat) :
    valueFrom? radix value (fixedDigits radix count n) =
      some (radix ^ count * value + n % radix ^ count) := by
  induction count generalizing n with
  | zero => simp [fixedDigits, valueFrom?, Nat.mod_one]
  | succ count ih =>
    have hlast : n % radix ^ (count + 1) = n % radix + radix * (n / radix % radix ^ count) := by
      rw [pow_succ', Nat.mod_mul]
    have hdigit := hexValue?_digit (Nat.lt_of_lt_of_le (Nat.mod_lt n hpos) hradix)
    rw [fixedDigits, valueFrom?_append, ih, Option.bind_some, valueFrom?, hdigit, Option.bind_some,
      valueFrom?, hlast, pow_succ']
    congr 1
    rw [Nat.mul_add, Nat.mul_assoc]
    omega

/-- Hexadecimal digits have their value in base sixteen. -/
theorem hexFrom?_eq_valueFrom? (value : Nat) (cs : List Char) :
    hexFrom? value cs = valueFrom? 16 value cs := by
  induction cs generalizing value with
  | nil => rfl
  | cons c cs ih => simp only [hexFrom?, valueFrom?, ih]

/-- **A number in a fixed number of hexadecimal digits is read back.** -/
theorem readHex?_fixedDigits {count n : Nat} (hpos : 0 < count) (hmost : count ≤ 8)
    (hn : n < 16 ^ count) : readHex? (fixedDigits 16 count n) = some n := by
  have hlen := length_fixedDigits 16 count n
  have hne : fixedDigits 16 count n ≠ [] := by
    rw [← List.length_pos_iff, hlen]
    exact hpos
  rw [readHex?, hlen, if_neg (by simp [hne]; omega), hexFrom?_eq_valueFrom?,
    valueFrom?_fixedDigits (by decide) (by decide), Nat.mul_zero, Nat.zero_add,
    Nat.mod_eq_of_lt hn]

/-- A hexadecimal digit is a letter or a digit. -/
theorem isAlphanum_of_hexValue? {c : Char} {d : Nat} (h : hexValue? c = some d) :
    c.isAlphanum = true := by
  change ((decide (65 ≤ c.toNat ∧ c.toNat ≤ 90) ||
    (decide (97 ≤ c.toNat) && decide (c.toNat ≤ 122))) ||
    (decide (48 ≤ c.toNat) && decide (c.toNat ≤ 57))) = true
  simp only [Bool.or_eq_true, Bool.and_eq_true, decide_eq_true_eq]
  unfold hexValue? at h
  split at h
  · rename_i hc
    exact .inr hc
  · split at h
    · rename_i hc
      have hlast : c.toNat ≤ 102 := hc.2
      exact .inl (.inr ⟨hc.1, by omega⟩)
    · split at h
      · rename_i hc
        have hlast : c.toNat ≤ 70 := hc.2
        exact .inl (.inl ⟨hc.1, by omega⟩)
      · exact absurd h (by simp)

/-- What is read as hexadecimal digits are letters and digits, and the number fits in them. -/
theorem hexFrom?_eq_some {value n : Nat} {cs : List Char} (h : hexFrom? value cs = some n) :
    (∀ c ∈ cs, c.isAlphanum = true) ∧ n < (value + 1) * 16 ^ cs.length := by
  induction cs generalizing value with
  | nil =>
    obtain rfl := Option.some.inj h
    exact ⟨fun c hc => absurd hc List.not_mem_nil, by simp⟩
  | cons c cs ih =>
    obtain ⟨d, hd, hrest⟩ := Option.bind_eq_some_iff.1 h
    obtain ⟨halphanum, hlt⟩ := ih hrest
    refine ⟨List.forall_mem_cons.2 ⟨isAlphanum_of_hexValue? hd, halphanum⟩, ?_⟩
    have hvalue : 16 * value + d + 1 ≤ (value + 1) * 16 := by
      have := hexValue?_lt hd
      omega
    calc n < (16 * value + d + 1) * 16 ^ cs.length := hlt
      _ ≤ (value + 1) * 16 * 16 ^ cs.length := Nat.mul_le_mul_right _ hvalue
      _ = (value + 1) * 16 ^ (c :: cs).length := by rw [List.length_cons, pow_succ', Nat.mul_assoc]

theorem readHex?_eq_some {n : Nat} {cs : List Char} (h : readHex? cs = some n) :
    (∀ c ∈ cs, c.isAlphanum = true) ∧ n < 16 ^ cs.length := by
  unfold readHex? at h
  split at h
  · exact absurd h (by simp)
  · have hfrom := hexFrom?_eq_some h
    rwa [Nat.zero_add, Nat.one_mul] at hfrom

/-- Digits are not letters in lower case. -/
theorem toUpper_of_isDigit {c : Char} (h : c.isDigit = true) : c.toUpper = c := by
  simp only [Char.isDigit, Bool.and_eq_true, decide_eq_true_eq, UInt32.le_iff_toNat_le] at h
  change 48 ≤ c.toNat ∧ c.toNat ≤ 57 at h
  unfold Char.toUpper
  rw [dif_neg]
  rintro ⟨hlow, -⟩
  rw [UInt32.le_iff_toNat_le] at hlow
  change 97 ≤ c.toNat at hlow
  omega

/-- The digits of a number in a base up to ten. -/
theorem digits_eq_toDigits {radix : Nat} (hpos : 0 < radix) (hten : radix ≤ 10) (n : Nat) :
    digits radix n = Nat.toDigits radix n := by
  have hupper : ∀ c ∈ Nat.toDigits radix n, c.toUpper = c := fun c hc =>
    toUpper_of_isDigit (Nat.isDigit_of_mem_toDigits hpos hten hc)
  exact (List.map_congr_left hupper).trans (List.map_id' _)

/-- The digits of a number in decimal. -/
theorem toList_decimal (n : Nat) : (decimal n).toList = Nat.toDigits 10 n := by
  rw [decimal, plain, String.toList_ofList]
  exact digits_eq_toDigits (by decide) (by decide) n

theorem isAlphanum_of_mem_decimal {n : Nat} {c : Char} (h : c ∈ (decimal n).toList) :
    c.isAlphanum = true := by
  rw [toList_decimal] at h
  simp [Char.isAlphanum, Nat.isDigit_of_mem_toDigits (by decide) (by decide) h]

/-- The value of decimal digits behind others. -/
theorem decimalFrom?_of_isDigit {cs : List Char} (h : ∀ c ∈ cs, c.isDigit = true) (value : Nat) :
    decimalFrom? value cs = some (Nat.ofDigitChars 10 cs value) := by
  induction cs generalizing value with
  | nil => rfl
  | cons c cs ih =>
    have hc := h c List.mem_cons_self
    simp only [Char.isDigit, Bool.and_eq_true, decide_eq_true_eq] at hc
    rw [decimalFrom?, if_pos ⟨hc.1, hc.2⟩, ih fun d hd => h d (List.mem_cons_of_mem _ hd),
      Nat.ofDigitChars_cons]

theorem isDigit_of_mem_decimal {n : Nat} {c : Char} (h : c ∈ (decimal n).toList) :
    c.isDigit = true := by
  rw [toList_decimal] at h
  exact Nat.isDigit_of_mem_toDigits (by decide) (by decide) h

theorem readDecimal?_decimal (n : Nat) : readDecimal? (decimal n).toList = some n := by
  have hdigit : ∀ c ∈ Nat.toDigits 10 n, c.isDigit = true := fun c hc =>
    Nat.isDigit_of_mem_toDigits (by decide) (by decide) hc
  rw [toList_decimal, readDecimal?, if_neg Nat.toDigits_ne_nil, decimalFrom?_of_isDigit hdigit,
    Nat.ofDigitChars_ten_toDigits]

/-- **A number in decimal is read back**, if it is within the limit. -/
theorem readCount?_decimal {limit n : Nat} (h : n ≤ limit) :
    readCount? limit (decimal n).toList = some n := by
  rw [readCount?, readDecimal?_decimal]
  · simp [h]
  · intro rest heq
    exact absurd (isDigit_of_mem_decimal (heq ▸ List.mem_cons_self)) (by decide)

/-- A number in decimal has none of the marks of hexadecimal numbers. -/
theorem readMagnitude?_decimal {n : Nat} (h : n < 0x8000000000000000) :
    readMagnitude? (decimal n).toList = some n := by
  have hmark (c : Char) (hc : c.isDigit = false) : c ∉ (decimal n).toList := fun hmem => by
    rw [isDigit_of_mem_decimal hmem] at hc
    cases hc
  unfold readMagnitude?
  split
  · exact absurd (by simp [*]) (hmark '#' (by decide))
  · exact absurd (by simp [*]) (hmark '$' (by decide))
  · exact absurd (by simp [*]) (hmark 'x' (by decide))
  · exact absurd (by simp [*]) (hmark 'X' (by decide))
  · rw [readDecimal?_decimal]
    simp [h]

/-- The characters of an integer are digits, behind a minus sign if it is negative. -/
theorem toList_integer (n : Int) : (integer n).toList =
    if n < 0 then '-' :: (decimal n.natAbs).toList else (decimal n.natAbs).toList := by
  rw [integer]
  split_ifs with hneg
  · rw [String.toList_append]
    rfl
  · rfl

/-- A magnitude without blanks is a number, and so it is behind a minus sign. -/
theorem readNumber?_of_readMagnitude? {n : Nat} {cs : List Char} (hn : readMagnitude? cs = some n)
    (h : ∀ c ∈ cs, Text.isBlank c = false) :
    readNumber? ('-' :: cs) = some (-(n : Int)) ∧
      ('-' ∉ cs → readNumber? cs = some (n : Int)) := by
  have hminus : ∀ c ∈ '-' :: cs, Text.isBlank c = false :=
    List.forall_mem_cons.2 ⟨by decide, h⟩
  refine ⟨?_, fun hmem => ?_⟩
  · simp only [readNumber?, Text.trim_of_not_isBlank hminus, hn]
    rfl
  · rw [readNumber?, Text.trim_of_not_isBlank h]
    split
    · exact absurd List.mem_cons_self hmem
    · rw [hn]
      rfl

/-- **An integer in decimal is read back**, if it takes no more than 63 bits. -/
theorem readNumber?_integer {n : Int} (h : n.natAbs < 0x8000000000000000) :
    readNumber? (integer n).toList = some n := by
  have hdigits {c : Char} (hc : c ∈ (decimal n.natAbs).toList) := isAlphanum_of_mem_decimal hc
  obtain ⟨hminus, hplain⟩ := readNumber?_of_readMagnitude? (readMagnitude?_decimal h) fun c hc =>
    Text.isBlank_of_isAlphanum (hdigits hc)
  rw [toList_integer]
  split_ifs with hneg
  · rw [hminus]
    congr 1
    omega
  · rw [hplain fun hc => absurd (hdigits hc) (by decide)]
    congr 1
    omega

end Numeral
end Disassembly
