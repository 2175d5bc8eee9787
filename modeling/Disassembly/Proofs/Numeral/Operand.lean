/-
# Operands are read back

An operand tells its base by its mark: `#` stands in front of hexadecimal digits, `@` in front of
octal and `%` in front of binary ones, and decimal digits have no mark. So an operand is read back
without knowing the base it was written in (`readOperand?_operand`). What is read as an operand is
made of letters and digits behind the mark (`readOperand?_eq_some`).
-/

import Disassembly.Proofs.Numeral.ReadBack

namespace Disassembly
namespace Numeral

/-- The value of an operand without a sign. -/
def readOperand? : List Char → Option Nat
  | [] => none
  | '#' :: cs => valueFrom? 16 0 cs
  | '@' :: cs => valueFrom? 8 0 cs
  | '%' :: cs => valueFrom? 2 0 cs
  | c :: cs => valueFrom? 10 0 (c :: cs)

/-- The value of digits of ASCII behind others. -/
theorem valueFrom?_of_isDigit (radix : Nat) {cs : List Char} (h : ∀ c ∈ cs, c.isDigit = true)
    (value : Nat) : valueFrom? radix value cs = some (Nat.ofDigitChars radix cs value) := by
  induction cs generalizing value with
  | nil => rfl
  | cons c cs ih =>
    have hc := h c List.mem_cons_self
    simp only [Char.isDigit, Bool.and_eq_true, decide_eq_true_eq] at hc
    have hvalue : hexValue? c = some (c.toNat - '0'.toNat) := if_pos ⟨hc.1, hc.2⟩
    rw [valueFrom?, hvalue, Option.bind_some, ih fun d hd => h d (List.mem_cons_of_mem _ hd),
      Nat.ofDigitChars_cons]

/-- The value of as few digits as it takes. -/
theorem valueFrom?_digits {radix : Nat} (hone : 1 < radix) (hten : radix ≤ 10) (n : Nat) :
    valueFrom? radix 0 (digits radix n) = some n := by
  have hdigit : ∀ c ∈ Nat.toDigits radix n, c.isDigit = true := fun c hc =>
    Nat.isDigit_of_mem_toDigits (by omega) hten hc
  rw [digits_eq_toDigits (by omega) hten, valueFrom?_of_isDigit radix hdigit,
    Nat.ofDigitChars_toDigits hone hten]

/-- Digits of ASCII have no mark. -/
theorem readOperand?_of_isDigit {cs : List Char} (hne : cs ≠ []) (h : ∀ c ∈ cs, c.isDigit = true) :
    readOperand? cs = valueFrom? 10 0 cs := by
  have hmark (c : Char) (hc : c.isDigit = false) : c ∉ cs := fun hmem => by
    rw [h c hmem] at hc
    cases hc
  unfold readOperand?
  split
  · exact absurd rfl hne
  · exact absurd List.mem_cons_self (hmark '#' (by decide))
  · exact absurd List.mem_cons_self (hmark '@' (by decide))
  · exact absurd List.mem_cons_self (hmark '%' (by decide))
  · rfl

/-- Digits behind a mark. -/
theorem toList_marked {mark : String} {c : Char} (h : mark.toList = [c]) (cs : List Char) :
    (mark ++ String.ofList cs).toList = c :: cs := by
  rw [String.toList_append, h, String.toList_ofList, List.singleton_append]

/-- A value that fits its width is read back. -/
theorem readOperand?_magnitude {value : Nat} {width : Width} (h : value < width.modulus)
    (base : Base) : readOperand? (magnitude value width base).toList = some value := by
  have hfixed {radix count : Nat} (hpos : 0 < radix) (hradix : radix ≤ 16)
      (hfit : value < radix ^ count) :
      valueFrom? radix 0 (fixedDigits radix count value) = some value := by
    rw [valueFrom?_fixedDigits hpos hradix, Nat.mul_zero, Nat.zero_add, Nat.mod_eq_of_lt hfit]
  cases base with
  | hex =>
    cases width
    all_goals
      rw [magnitude, fixed, toList_marked (c := '#') rfl, readOperand?]
      exact hfixed (by decide) (by decide) (by simpa [Width.modulus] using h)
  | decimal =>
    have hdigit : ∀ c ∈ Nat.toDigits 10 value, c.isDigit = true := fun c hc =>
      Nat.isDigit_of_mem_toDigits (by decide) (by decide) hc
    have hdigits : digits 10 value = Nat.toDigits 10 value :=
      digits_eq_toDigits (by decide) (by decide) value
    simp only [magnitude, plain, String.toList_ofList, Base.radix]
    rw [hdigits, readOperand?_of_isDigit Nat.toDigits_ne_nil hdigit, ← hdigits]
    exact valueFrom?_digits (by decide) (by decide) value
  | octal =>
    rw [magnitude, plain, toList_marked (c := '@') rfl, readOperand?]
    exact valueFrom?_digits (by decide) (by decide) value
  | binary =>
    cases width
    all_goals
      rw [magnitude, fixed, toList_marked (c := '%') rfl, readOperand?]
      exact hfixed (by decide) (by decide) (by simpa [Width.modulus] using h)

/-- **An operand without a sign is read back**, whatever its base. -/
theorem readOperand?_operand {value : Nat} {width : Width} (h : value < width.modulus)
    (base : Base) : readOperand? (operand value width base false).toList = some value := by
  have hoperand : operand value width base false = magnitude value width base := by
    simp [operand, Nat.mod_eq_of_lt h]
  rw [hoperand, readOperand?_magnitude h base]

/-- What has a value as digits is made of letters and digits. -/
theorem isAlphanum_of_valueFrom? {radix value n : Nat} {cs : List Char}
    (h : valueFrom? radix value cs = some n) : ∀ c ∈ cs, c.isAlphanum = true := by
  induction cs generalizing value with
  | nil => exact fun c hc => absurd hc List.not_mem_nil
  | cons c cs ih =>
    obtain ⟨d, hd, hrest⟩ := Option.bind_eq_some_iff.1 h
    intro c' hc'
    rcases List.mem_cons.1 hc' with rfl | hc'
    · exact isAlphanum_of_hexValue? hd
    · exact ih hrest c' hc'

/-- What is read as an operand is made of letters and digits, and of marks. -/
theorem readOperand?_eq_some {n : Nat} {cs : List Char} (h : readOperand? cs = some n) :
    cs ≠ [] ∧ ∀ c ∈ cs, c.isAlphanum = true ∨ c = '#' ∨ c = '@' ∨ c = '%' := by
  have hmarked {mark : Char} {radix : Nat} {cs : List Char} (hcs : valueFrom? radix 0 cs = some n)
      (hmark : mark = '#' ∨ mark = '@' ∨ mark = '%') :
      ∀ c ∈ mark :: cs, c.isAlphanum = true ∨ c = '#' ∨ c = '@' ∨ c = '%' := by
    intro c hc
    rcases List.mem_cons.1 hc with rfl | hc
    · exact .inr hmark
    · exact .inl (isAlphanum_of_valueFrom? hcs c hc)
  unfold readOperand? at h
  split at h
  · cases h
  · exact ⟨List.cons_ne_nil _ _, hmarked h (by simp)⟩
  · exact ⟨List.cons_ne_nil _ _, hmarked h (by simp)⟩
  · exact ⟨List.cons_ne_nil _ _, hmarked h (by simp)⟩
  · exact ⟨List.cons_ne_nil _ _, fun c hc => .inl (isAlphanum_of_valueFrom? h c hc)⟩

end Numeral
end Disassembly
