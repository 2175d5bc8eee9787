/-
# Numbers are written without lower-case letters

In every base the digits above nine are upper-case letters, and what else stands in a number is a sign
or the mark of its base. So neither an operand (`holdsNoLower_operand`) nor a displacement
(`holdsNoLower_displacement`) holds a lower-case letter.
-/

import Disassembly.Numeral.Render

namespace Disassembly
namespace Numeral

theorem isLower_iff (c : Char) : c.isLower = true ↔ 97 ≤ c.val.toNat ∧ c.val.toNat ≤ 122 := by
  show (decide ('a'.val ≤ c.val) && decide (c.val ≤ 'z'.val)) = true ↔ _
  simp only [Bool.and_eq_true, decide_eq_true_eq, UInt32.le_iff_toNat_le]
  rfl

theorem isLower_toUpper (c : Char) : c.toUpper.isLower = false := by
  rw [← Bool.not_eq_true, isLower_iff]
  unfold Char.toUpper
  split
  · rename_i h
    have hlow : 97 ≤ c.val.toNat := h.1
    have hhigh : c.val.toNat ≤ 122 := h.2
    have hshift : ('A'.val - 'a'.val).toNat = 0xFFFFFFE0 := rfl
    have hval : (c.val + ('A'.val - 'a'.val)).toNat = c.val.toNat - 32 := by
      rw [UInt32.toNat_add, hshift]
      omega
    simp only [hval]
    omega
  · rename_i h
    exact h

theorem isLower_digit {n : Nat} (h : n < 16) : (digit n).isLower = false := by
  have hall : ∀ n : Fin 16, (digit n).isLower = false := by decide
  exact hall ⟨n, h⟩

/-- Whether no character is a lower-case letter. -/
def HoldsNoLower (cs : List Char) : Prop := ∀ c ∈ cs, c.isLower = false

theorem HoldsNoLower.append {cs ds : List Char} (hcs : HoldsNoLower cs) (hds : HoldsNoLower ds) :
    HoldsNoLower (cs ++ ds) := by
  intro c hc
  rcases List.mem_append.1 hc with hc | hc
  · exact hcs c hc
  · exact hds c hc

theorem HoldsNoLower.appendString {s t : String} (hs : HoldsNoLower s.toList)
    (ht : HoldsNoLower t.toList) : HoldsNoLower (s ++ t).toList := by
  rw [String.toList_append]
  exact hs.append ht

theorem holdsNoLower_fixedDigits {radix : Nat} (hpos : 0 < radix) (hradix : radix ≤ 16)
    (count n : Nat) : HoldsNoLower (fixedDigits radix count n) := by
  induction count generalizing n with
  | zero => exact fun c hc => absurd hc List.not_mem_nil
  | succ count ih =>
    refine (ih (n / radix)).append fun c hc => ?_
    rw [List.mem_singleton.1 hc]
    exact isLower_digit (Nat.lt_of_lt_of_le (Nat.mod_lt _ hpos) hradix)

theorem holdsNoLower_fixed (base : Base) (count n : Nat) :
    HoldsNoLower (fixed base count n).toList := by
  rw [fixed, String.toList_ofList]
  exact holdsNoLower_fixedDigits (by cases base <;> decide) (by cases base <;> decide) count n

theorem holdsNoLower_plain (base : Base) (n : Nat) : HoldsNoLower (plain base n).toList := by
  rw [plain, String.toList_ofList]
  intro c hc
  obtain ⟨d, -, rfl⟩ := List.mem_map.1 hc
  exact isLower_toUpper d

theorem holdsNoLower_magnitude (value : Nat) (width : Width) (base : Base) :
    HoldsNoLower (magnitude value width base).toList := by
  cases base with
  | hex => cases width <;> exact .appendString (by simp [HoldsNoLower]) (holdsNoLower_fixed _ _ _)
  | decimal => exact holdsNoLower_plain _ _
  | octal => exact .appendString (by simp [HoldsNoLower]) (holdsNoLower_plain _ _)
  | binary => cases width <;> exact .appendString (by simp [HoldsNoLower]) (holdsNoLower_fixed _ _ _)

theorem holdsNoLower_operand (value : Nat) (width : Width) (base : Base) (signed : Bool) :
    HoldsNoLower (operand value width base signed).toList := by
  simp only [operand]
  split
  · exact .appendString (by simp [HoldsNoLower]) (holdsNoLower_magnitude _ _ _)
  · exact holdsNoLower_magnitude _ _ _

theorem holdsNoLower_displacement (d : Int8) (base : Base) :
    HoldsNoLower (displacement d base).toList :=
  .appendString (by split <;> simp [HoldsNoLower]) (holdsNoLower_magnitude _ _ _)

end Numeral
end Disassembly
