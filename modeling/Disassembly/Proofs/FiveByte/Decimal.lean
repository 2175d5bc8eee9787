/-
# Decimal numbers in a text

A number in a text is a sign, digits before and behind a point, and the exponent of a power of ten,
most of which can be left out (`Decimal.read?`). The same digits can be laid out in several ways: with
the point in its place, with zeros in front, or with an exponent (`Layout`). Each layout is read back
as the same value, without the zeros at its end (`Layout.exists_read?`).
-/

import Disassembly.FiveByte
import Disassembly.Proofs.Numeral.Operand
import Mathlib.Algebra.Order.Field.Power
import Mathlib.Tactic.NormNum
import Mathlib.Tactic.Ring

namespace Disassembly

/-- A number as it stands in a text. -/
structure Decimal where
  negative : Bool
  whole : List Char
  fraction : List Char
  exponent : Option Int

namespace Decimal

/-- The number: the digits, the last of which stands behind the point by the length of the fraction. -/
def value (d : Decimal) : ℚ :=
  (if d.negative then -1 else 1) * (Nat.ofDigitChars 10 (d.whole ++ d.fraction) 0 : ℚ) *
    10 ^ (d.exponent.getD 0 - d.fraction.length)

/-- The digits from the first one on that is not zero. -/
def significant (d : Decimal) : List Char := (d.whole ++ d.fraction).dropWhile (· = '0')

/-- A fraction behind its point, of one digit at least, and what stands behind it. -/
def readFraction? : List Char → Option (List Char × List Char)
  | '.' :: cs =>
    if cs.takeWhile Char.isDigit = [] then none
    else some (cs.takeWhile Char.isDigit, cs.dropWhile Char.isDigit)
  | cs => some ([], cs)

/-- The exponent at the end of a number. -/
def readExponent? : List Char → Option (Option Int)
  | [] => some none
  | 'E' :: cs => (Numeral.readNumber? cs).map some
  | _ => none

/-- A number without its sign. -/
def readUnsigned? (cs : List Char) : Option Decimal :=
  if cs.takeWhile Char.isDigit = [] then none
  else
    (readFraction? (cs.dropWhile Char.isDigit)).bind fun (fraction, rest) =>
      (readExponent? rest).map fun exponent =>
        ⟨false, cs.takeWhile Char.isDigit, fraction, exponent⟩

/-- A number with an optional minus sign. -/
def read? : List Char → Option Decimal
  | '-' :: cs => (readUnsigned? cs).map fun d => { d with negative := true }
  | cs => readUnsigned? cs

/-- The sign in front of a number. -/
def sign (negative : Bool) : List Char := if negative then ['-'] else []

/-- The exponent behind a number. -/
def power : Option Int → List Char
  | none => []
  | some e => 'E' :: (Numeral.integer e).toList

open Significant (dropZeros withPoint)

variable {cs rest whole fraction digits : List Char} {exponent : Option Int}

/-! ### The parts are read back -/

/-- All characters are digits of ASCII. -/
def AllDigits (cs : List Char) : Prop := ∀ c ∈ cs, c.isDigit = true

/-- No digit stands at the start, so digits in front end here. -/
def NoDigitHead (cs : List Char) : Prop := ∀ c ∈ cs.head?, c.isDigit = false

theorem takeWhile_isDigit (h : AllDigits cs) (hrest : NoDigitHead rest) :
    (cs ++ rest).takeWhile Char.isDigit = cs := by
  rw [List.takeWhile_append_of_pos h]
  cases rest with
  | nil => simp
  | cons c rest => rw [List.takeWhile_cons_of_neg (by simp [hrest c rfl]), List.append_nil]

theorem dropWhile_isDigit (h : AllDigits cs) (hrest : NoDigitHead rest) :
    (cs ++ rest).dropWhile Char.isDigit = rest := by
  rw [List.dropWhile_append_of_pos h]
  cases rest with
  | nil => rfl
  | cons c rest => exact List.dropWhile_cons_of_neg (by simp [hrest c rfl])

theorem readExponent?_power (h : ∀ e ∈ exponent, e.natAbs < 0x8000000000000000) :
    readExponent? (power exponent) = some exponent := by
  cases exponent with
  | none => rfl
  | some e => simp [power, readExponent?, Numeral.readNumber?_integer (h e rfl)]

theorem power_head (exponent : Option Int) : ∀ c ∈ (power exponent).head?, c = 'E' := by
  intro c hc
  cases exponent with
  | none => exact absurd hc (by simp [power])
  | some e => exact (Option.some.inj hc).symm

theorem noDigitHead_power (exponent : Option Int) : NoDigitHead (power exponent) := by
  intro c hc
  rw [power_head exponent c hc]
  rfl

theorem readFraction?_power (exponent : Option Int) :
    readFraction? (power exponent) = some ([], power exponent) := by
  unfold readFraction?
  split
  · rename_i cs hcs
    have hpoint := power_head exponent '.' (by rw [hcs]; rfl)
    exact absurd hpoint (by decide)
  · rfl

/-- A whole part and a fraction are read back without the zeros at the end of the fraction. -/
theorem readUnsigned?_withPoint (hne : whole ≠ []) (hwhole : AllDigits whole)
    (hfraction : AllDigits (dropZeros fraction))
    (hexponent : ∀ e ∈ exponent, e.natAbs < 0x8000000000000000) :
    readUnsigned? (withPoint whole fraction ++ power exponent) =
      some ⟨false, whole, dropZeros fraction, exponent⟩ := by
  have hpower := noDigitHead_power exponent
  unfold withPoint
  split
  · rename_i hnil
    rw [readUnsigned?, takeWhile_isDigit hwhole hpower, dropWhile_isDigit hwhole hpower, if_neg hne,
      readFraction?_power, Option.bind_some]
    dsimp only
    rw [readExponent?_power hexponent, hnil, Option.map_some]
  · rename_i hcons
    generalize dropZeros fraction = digits at hfraction hcons
    have hpoint : NoDigitHead ('.' :: digits ++ power exponent) := by
      intro c hc
      obtain rfl := Option.some.inj hc
      rfl
    have hread : readFraction? ('.' :: digits ++ power exponent) = some (digits, power exponent) := by
      rw [List.cons_append, readFraction?, takeWhile_isDigit hfraction hpower,
        dropWhile_isDigit hfraction hpower, if_neg hcons]
    rw [List.append_assoc, readUnsigned?, takeWhile_isDigit hwhole hpoint,
      dropWhile_isDigit hwhole hpoint, if_neg hne, hread, Option.bind_some]
    dsimp only
    rw [readExponent?_power hexponent, Option.map_some]

/-- A sign is told from a digit. -/
theorem read?_sign (negative : Bool) {c : Char} (hc : c.isDigit = true) (hcs : cs.head? = some c) :
    read? (sign negative ++ cs) =
      (readUnsigned? cs).map fun d => { d with negative := negative } := by
  cases negative with
  | true => rfl
  | false =>
    have hsigned {d : Decimal} (h : readUnsigned? cs = some d) : d.negative = false := by
      unfold readUnsigned? at h
      split at h
      · exact absurd h (by simp)
      · simp only [Option.bind_eq_some_iff, Option.map_eq_some_iff] at h
        obtain ⟨_, _, _, _, rfl⟩ := h
        rfl
    show read? cs = _
    unfold read?
    split
    · rename_i rest
      obtain rfl := Option.some.inj hcs
      exact absurd hc (by decide)
    · cases h : readUnsigned? cs with
      | none => rfl
      | some d =>
        obtain ⟨negative, _, _, _⟩ := d
        obtain rfl : negative = false := hsigned h
        rfl

/-! ### Zeros at the end -/

/-- What is dropped are zeros. -/
theorem exists_append_replicate (digits : List Char) :
    ∃ k, digits = dropZeros digits ++ List.replicate k '0' := by
  have hzeros : ∀ c ∈ digits.reverse.takeWhile (· = '0'), c = '0' := fun c hc => by
    simpa using List.mem_takeWhile_imp hc
  have hsplit := congrArg List.reverse
    (List.takeWhile_append_dropWhile (p := fun c => decide (c = '0')) (l := digits.reverse))
  rw [List.reverse_append, List.reverse_reverse, List.eq_replicate_of_mem hzeros,
    List.reverse_replicate] at hsplit
  exact ⟨_, hsplit.symm⟩

theorem isPrefix_dropZeros (digits : List Char) : dropZeros digits <+: digits :=
  Text.isPrefix_dropEndWhile _ digits

theorem getLast?_dropZeros (digits : List Char) : (dropZeros digits).getLast? ≠ some '0' :=
  fun h => absurd (Text.getLast?_dropEndWhile h) (by decide)

/-- **Zeros at the end of a fraction do not count.** -/
theorem value_dropZeros (negative : Bool) (whole fraction : List Char) (exponent : Option Int) :
    (⟨negative, whole, dropZeros fraction, exponent⟩ : Decimal).value =
      (⟨negative, whole, fraction, exponent⟩ : Decimal).value := by
  obtain ⟨k, hk⟩ := exists_append_replicate fraction
  generalize dropZeros fraction = kept at hk
  subst hk
  have hscale : exponent.getD 0 - kept.length =
      k + (exponent.getD 0 - (kept ++ List.replicate k '0').length) := by
    rw [List.length_append, List.length_replicate]
    omega
  have hdigits : Nat.ofDigitChars 10 (whole ++ (kept ++ List.replicate k '0')) 0 =
      10 ^ k * Nat.ofDigitChars 10 (whole ++ kept) 0 := by
    rw [← List.append_assoc, Nat.ofDigitChars_append, Nat.ofDigitChars_replicate_zero]
  simp only [value]
  rw [hdigits, hscale, zpow_add₀ (by norm_num), zpow_natCast]
  push_cast
  ring

/-- Fewer digits have fewer significant ones. -/
theorem length_dropWhile_le_of_prefix {xs ys : List Char} (h : xs <+: ys) :
    (xs.dropWhile (· = '0')).length ≤ (ys.dropWhile (· = '0')).length := by
  obtain ⟨zs, rfl⟩ := h
  rw [List.dropWhile_append]
  split
  · rename_i hempty
    rw [List.isEmpty_iff.1 hempty]
    exact Nat.zero_le _
  · rw [List.length_append]
    exact Nat.le_add_right _ _

/-! ### Layouts -/

/-- The digits of a number whose first digit has the exponent `e`, in a whole part and a fraction:
zeros can stand in front, and the exponent can be written or told by the place of the point. -/
structure Layout (digits : List Char) (e : Int) (whole fraction : List Char)
    (exponent : Option Int) : Prop where
  digits_eq : ∃ k, whole ++ fraction = List.replicate k '0' ++ digits
  whole_ne : whole ≠ []
  scale : exponent.getD 0 - fraction.length = e + 1 - digits.length

variable {e : Int}

theorem Layout.allDigits (h : Layout digits e whole fraction exponent) (hdigits : AllDigits digits) :
    AllDigits (whole ++ fraction) := by
  obtain ⟨k, hk⟩ := h.digits_eq
  rw [hk]
  intro c hc
  rcases List.mem_append.1 hc with hc | hc
  · rw [List.eq_of_mem_replicate hc]
    rfl
  · exact hdigits c hc

/-- **A layout is read back** as its number, with no more significant digits than there are. -/
theorem Layout.exists_read? (h : Layout digits e whole fraction exponent) (negative : Bool)
    (hdigits : AllDigits digits) (hexponent : ∀ e ∈ exponent, e.natAbs < 0x8000000000000000) :
    ∃ d, read? (sign negative ++ (withPoint whole fraction ++ power exponent)) = some d ∧
      d.exponent = exponent ∧
      d.value = (if negative then -1 else 1) * (Nat.ofDigitChars 10 digits 0 : ℚ) *
        10 ^ (e + 1 - digits.length) ∧
      d.significant.length ≤ digits.length ∧ d.fraction.getLast? ≠ some '0' := by
  have hall := h.allDigits hdigits
  obtain ⟨k, hk⟩ := h.digits_eq
  have hread := readUnsigned?_withPoint h.whole_ne (fun c hc => hall c (List.mem_append_left _ hc))
    (fun c hc => hall c (List.mem_append_right _ ((isPrefix_dropZeros fraction).subset hc))) hexponent
  obtain ⟨c, whole', rfl⟩ := List.exists_cons_of_ne_nil h.whole_ne
  have hc : c.isDigit = true := hall c List.mem_cons_self
  have hhead : (withPoint (c :: whole') fraction ++ power exponent).head? = some c := by
    unfold withPoint
    split
    · rfl
    · rfl
  refine ⟨⟨negative, c :: whole', dropZeros fraction, exponent⟩, ?_, rfl, ?_, ?_, ?_⟩
  · rw [read?_sign negative hc hhead, hread, Option.map_some]
  · rw [value_dropZeros, value, hk, h.scale, Nat.ofDigitChars_append,
      Nat.ofDigitChars_replicate_zero, Nat.mul_zero]
  · have hprefix : c :: whole' ++ dropZeros fraction <+: List.replicate k '0' ++ digits :=
      hk ▸ (List.prefix_append_right_inj _).2 (isPrefix_dropZeros fraction)
    have hzeros : (List.replicate k '0' ++ digits).dropWhile (· = '0') =
        digits.dropWhile (· = '0') := List.dropWhile_append_of_pos (by simp)
    have hle := length_dropWhile_le_of_prefix hprefix
    rw [hzeros] at hle
    exact hle.trans (List.length_dropWhile_le _ _)
  · exact getLast?_dropZeros fraction

/-- Behind zeros, all digits are those of a fraction. -/
theorem layout_small (hneg : e < 0) :
    Layout digits e ['0'] (List.replicate (-e - 1).toNat '0' ++ digits) none where
  digits_eq := ⟨(-e - 1).toNat + 1, by rw [List.replicate_succ]; rfl⟩
  whole_ne := List.cons_ne_nil _ _
  scale := by
    rw [List.length_append, List.length_replicate, Option.getD_none]
    omega

/-- The point is put among the digits. -/
theorem layout_split (hnonneg : 0 ≤ e) (hlt : e < digits.length) :
    Layout digits e (digits.take (e + 1).toNat) (digits.drop (e + 1).toNat) none where
  digits_eq := ⟨0, by rw [List.take_append_drop]; rfl⟩
  whole_ne := by
    intro hnil
    have hlength := congrArg List.length hnil
    rw [List.length_take, List.length_nil] at hlength
    omega
  scale := by
    rw [List.length_drop, Option.getD_none]
    omega

/-- The point is put behind the first digit. -/
theorem layout_power (e : Int) (hne : digits ≠ []) :
    Layout digits e (digits.take 1) (digits.drop 1) (some e) where
  digits_eq := ⟨0, by rw [List.take_append_drop]; rfl⟩
  whole_ne := by
    obtain ⟨c, digits', rfl⟩ := List.exists_cons_of_ne_nil hne
    exact List.cons_ne_nil _ _
  scale := by
    have hpos := List.length_pos_of_ne_nil hne
    rw [List.length_drop, Option.getD_some]
    omega

end Decimal
end Disassembly
