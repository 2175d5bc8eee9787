/-
# Written numbers lose nothing

An operand stands for its value in as many bits as its width has, in two's complement if it is
signed (`operandNumber`). In hexadecimal and decimal, this number is read back from the text as
numbers in arguments are read (`readNumber?_operand`). In every base the text alone tells the
number, whatever the width and whether it is signed (`readSigned?_operand`), since the mark in front
of the digits tells the base. Opcode bytes have no mark, but in one base they are all equally wide,
so that their text tells how many there are and which (`opcodeBytes_injective`).
`numerals_lossless` puts this together.
-/

import Disassembly.Proofs.Numeral.Operand

namespace Disassembly
namespace Numeral

/-! ### Operands -/

/-- The number an operand stands for: the value in as many bits as the width has, in two's
complement if the operand is signed. -/
def operandNumber (value : Nat) (width : Width) (signed : Bool) : Int :=
  let bits := BitVec.ofNat (8 * width.bytes) value
  if signed then bits.toInt else bits.toNat

/-- **The two forms of an operand.** It is a magnitude that fits the width, behind a minus sign or
without one, and the number it stands for has this sign and magnitude. -/
theorem operand_cases (value : Nat) (width : Width) (signed : Bool) :
    ∃ m < width.modulus,
      (∀ base, operand value width base signed = magnitude m width base) ∧
          operandNumber value width signed = m ∨
        (∀ base, operand value width base signed = "-" ++ magnitude m width base) ∧
          operandNumber value width signed = -m := by
  have hpow : 2 ^ (8 * width.bytes) = width.modulus := by cases width <;> rfl
  have hpos : 0 < width.modulus := by cases width <;> decide
  have heven : width.modulus % 2 = 0 := by cases width <;> rfl
  have hlt := Nat.mod_lt value hpos
  by_cases hsign : signed ∧ width.modulus / 2 ≤ value % width.modulus
  · refine ⟨width.modulus - value % width.modulus, by omega, .inr ⟨fun base => ?_, ?_⟩⟩
    · simp only [operand, if_pos hsign]
    · rw [operandNumber, if_pos hsign.1, BitVec.toInt_eq_toNat_cond, BitVec.toNat_ofNat, hpow,
        if_neg (by omega)]
      omega
  · refine ⟨value % width.modulus, hlt, .inl ⟨fun base => ?_, ?_⟩⟩
    · simp only [operand, if_neg hsign]
    · cases signed with
      | false => simp [operandNumber, hpow]
      | true =>
        have hlow : value % width.modulus < width.modulus / 2 := by simpa using hsign
        rw [operandNumber, if_pos rfl, BitVec.toInt_eq_toNat_cond, BitVec.toNat_ofNat, hpow,
          if_pos (by omega)]

/-- The least signed number has no positive counterpart, and is its own magnitude. -/
example : operand 0x80 .byte .hex true = "-#80" ∧ operandNumber 0x80 .byte true = -0x80 := by
  decide

/-- A magnitude that fits its width holds neither blanks nor a minus sign. -/
theorem mem_magnitude {value : Nat} {width : Width} (h : value < width.modulus) {base : Base}
    {c : Char} (hc : c ∈ (magnitude value width base).toList) :
    Text.isBlank c = false ∧ c ≠ '-' := by
  rcases (readOperand?_eq_some (readOperand?_magnitude h base)).2 c hc with hc | rfl | rfl | rfl
  · refine ⟨Text.isBlank_of_isAlphanum hc, fun hminus => ?_⟩
    exact absurd (hminus ▸ hc) (by decide)
  all_goals decide

/-- In hexadecimal and decimal, a magnitude is read as numbers in arguments are. -/
theorem readMagnitude?_magnitude {value : Nat} {width : Width} (h : value < width.modulus)
    {base : Base} (hbase : base = .hex ∨ base = .decimal) :
    readMagnitude? (magnitude value width base).toList = some value := by
  rcases hbase with rfl | rfl
  · cases width
    all_goals
      rw [magnitude, fixed, toList_marked (c := '#') rfl, readMagnitude?]
      exact readHex?_fixedDigits (by decide) (by decide) h
  · have hmost : width.modulus ≤ 0x10000 := by cases width <;> decide
    exact readMagnitude?_decimal (by omega)

/-- **In hexadecimal and decimal, an operand is read as the number it stands for.** -/
theorem readNumber?_operand {base : Base} (hbase : base = .hex ∨ base = .decimal) (value : Nat)
    (width : Width) (signed : Bool) :
    readNumber? (operand value width base signed).toList =
      some (operandNumber value width signed) := by
  obtain ⟨m, hm, hform⟩ := operand_cases value width signed
  obtain ⟨hminus, hplain⟩ := readNumber?_of_readMagnitude? (readMagnitude?_magnitude hm hbase)
    fun c hc => (mem_magnitude hm hc).1
  rcases hform with ⟨htext, hnumber⟩ | ⟨htext, hnumber⟩
  · rw [htext, hnumber, hplain fun hc => (mem_magnitude hm hc).2 rfl]
  · rw [htext, hnumber, String.toList_append]
    exact hminus

/-- The number of an operand that may have a minus sign, whatever its base. -/
def readSigned? : List Char → Option Int
  | '-' :: cs => (readOperand? cs).map fun n : Nat => -(n : Int)
  | cs => (readOperand? cs).map fun n : Nat => (n : Int)

/-- **The text of an operand tells the number it stands for**, whatever its base and width and
whether it is signed. -/
theorem readSigned?_operand (value : Nat) (width : Width) (base : Base) (signed : Bool) :
    readSigned? (operand value width base signed).toList =
      some (operandNumber value width signed) := by
  obtain ⟨m, hm, ⟨htext, hnumber⟩ | ⟨htext, hnumber⟩⟩ := operand_cases value width signed
  · rw [htext, hnumber]
    unfold readSigned?
    split
    · rename_i heq
      exact absurd rfl (mem_magnitude hm (heq ▸ List.mem_cons_self)).2
    · rw [readOperand?_magnitude hm, Option.map_some]
  · rw [htext, hnumber, String.toList_append]
    change (readOperand? (magnitude m width base).toList).map _ = _
    rw [readOperand?_magnitude hm, Option.map_some]

/-! ### Opcode bytes -/

/-- A number that fits in a fixed number of digits is told by them. -/
theorem fixedDigits_inj {radix : Nat} (hpos : 0 < radix) (hradix : radix ≤ 16) {count m n : Nat}
    (hm : m < radix ^ count) (hn : n < radix ^ count)
    (h : fixedDigits radix count m = fixedDigits radix count n) : m = n := by
  have hvalue := congrArg (valueFrom? radix 0) h
  rw [valueFrom?_fixedDigits hpos hradix, valueFrom?_fixedDigits hpos hradix,
    Nat.mod_eq_of_lt hm, Nat.mod_eq_of_lt hn, Nat.mul_zero, Nat.zero_add, Nat.zero_add] at hvalue
  exact Option.some.inj hvalue

/-- What stands between opcode bytes. -/
def byteSeparator : Base → List Char
  | .hex => []
  | _ => [',']

/-- The digits of an opcode byte. -/
def byteDigits (base : Base) (b : UInt8) : List Char :=
  fixedDigits base.radix (opcodeWidth base) b.toNat

@[simp] theorem length_byteDigits (base : Base) (b : UInt8) :
    (byteDigits base b).length = opcodeWidth base :=
  length_fixedDigits _ _ _

/-- The digits are enough for every byte. -/
theorem byteDigits_injective (base : Base) : Function.Injective (byteDigits base) := by
  have hwide : 2 ^ 8 ≤ base.radix ^ opcodeWidth base := by cases base <;> decide
  have hfit (b : UInt8) : b.toNat < base.radix ^ opcodeWidth base :=
    Nat.lt_of_lt_of_le b.toNat_lt hwide
  intro b b' h
  have hnat : b.toNat = b'.toNat := fixedDigits_inj (by cases base <;> decide)
    (by cases base <;> decide) (hfit b) (hfit b') h
  exact UInt8.toNat_inj.1 hnat

/-- Every piece but the first has a separator in front. -/
theorem intercalate_cons {α : Type} (sep x : List α) (xs : List (List α)) :
    sep.intercalate (x :: xs) = x ++ xs.flatMap (sep ++ ·) := by
  induction xs generalizing x with
  | nil => simp
  | cons y ys ih =>
    rw [List.intercalate_cons_cons, ih, List.flatMap_cons, List.append_assoc, List.append_assoc]

/-- Every byte but the first has a separator in front. -/
theorem opcodeBytes_cons (b : UInt8) (bs : List UInt8) (base : Base) :
    (opcodeBytes (b :: bs) base).toList =
      byteDigits base b ++ bs.flatMap fun b' => byteSeparator base ++ byteDigits base b' := by
  have hdigits (b : UInt8) : (fixed base (opcodeWidth base) b.toNat).toList = byteDigits base b :=
    String.toList_ofList
  cases base with
  | hex =>
    simp only [opcodeBytes, byteSeparator, String.toList_join, List.flatMap_map, List.flatMap_cons,
      hdigits, List.nil_append]
  | decimal | octal | binary =>
    simp only [opcodeBytes, byteSeparator, String.toList_intercalate, List.map_map, List.map_cons,
      intercalate_cons, List.flatMap_map, Function.comp_apply, hdigits]
    rfl

/-- Behind one more separator, the text is made of blocks: a separator and the digits of a byte. -/
theorem separator_append_opcodeBytes {bs : List UInt8} (hne : bs ≠ []) (base : Base) :
    byteSeparator base ++ (opcodeBytes bs base).toList =
      bs.flatMap fun b => byteSeparator base ++ byteDigits base b := by
  obtain ⟨b, bs, rfl⟩ := List.exists_cons_of_ne_nil hne
  rw [opcodeBytes_cons, List.flatMap_cons, List.append_assoc]

/-- Only no bytes have no text. -/
theorem opcodeBytes_eq_nil_iff {bs : List UInt8} {base : Base} :
    (opcodeBytes bs base).toList = [] ↔ bs = [] := by
  have hpos : 0 < opcodeWidth base := by cases base <;> decide
  cases bs with
  | nil => exact iff_of_true (by cases base <;> rfl) rfl
  | cons b bs =>
    refine iff_of_false (fun hnil => ?_) (List.cons_ne_nil b bs)
    have hlength := congrArg List.length hnil
    rw [opcodeBytes_cons, List.length_append, length_byteDigits, List.length_nil] at hlength
    omega

/-- Blocks of one length are told by what they make up together. Since no block is empty, their
number is not lost either. -/
theorem flatMap_injective {α β : Type} {block : α → List β} {n : Nat} (hpos : 0 < n)
    (hlength : ∀ a, (block a).length = n) (hblock : Function.Injective block) :
    Function.Injective (List.flatMap block) := by
  have hne (a : α) (as : List α) : (a :: as).flatMap block ≠ [] := by
    rw [← List.length_pos_iff, List.flatMap_cons, List.length_append, hlength]
    omega
  intro as
  induction as with
  | nil =>
    intro bs h
    cases bs with
    | nil => rfl
    | cons b bs => exact absurd h.symm (hne b bs)
  | cons a as ih =>
    intro bs h
    cases bs with
    | nil => exact absurd h (hne a as)
    | cons b bs =>
      rw [List.flatMap_cons, List.flatMap_cons] at h
      obtain ⟨hhead, htail⟩ := List.append_inj h (by rw [hlength, hlength])
      rw [hblock hhead, ih htail]

/-- **Opcode bytes are told by their text**, in every base and however many they are. -/
theorem opcodeBytes_injective (base : Base) :
    Function.Injective fun bytes => opcodeBytes bytes base := by
  have hpos : 0 < opcodeWidth base := by cases base <;> decide
  have hblocks : Function.Injective
      (List.flatMap fun b => byteSeparator base ++ byteDigits base b) := by
    refine flatMap_injective (n := (byteSeparator base).length + opcodeWidth base) (by omega)
      (fun b => by simp) fun b b' h => ?_
    exact byteDigits_injective base (List.append_cancel_left h)
  intro bs bs' h
  have htext : (opcodeBytes bs base).toList = (opcodeBytes bs' base).toList :=
    congrArg String.toList h
  -- No bytes make no block, and so the text without bytes has no separator in front of it.
  by_cases hnil : bs = []
  · have hnil' : bs' = [] := by
      rwa [← @opcodeBytes_eq_nil_iff _ base, ← htext, opcodeBytes_eq_nil_iff]
    rw [hnil, hnil']
  · have hnil' : bs' ≠ [] := by
      rwa [ne_eq, ← @opcodeBytes_eq_nil_iff _ base, ← htext, opcodeBytes_eq_nil_iff]
    apply hblocks
    rw [← separator_append_opcodeBytes hnil, ← separator_append_opcodeBytes hnil', htext]

/-- **Written numbers lose nothing.** In hexadecimal and decimal, an operand of any value is read as
the number it stands for. In octal and binary as well, operands with the same text stand for the
same number, even if one is a byte and the other a word, or only one of them is signed. In every
base, bytes with the same text are the same bytes. -/
theorem numerals_lossless :
    (∀ (value : Nat) (width : Width) (signed : Bool),
      readNumber? (operand value width .hex signed).toList =
          some (operandNumber value width signed) ∧
        readNumber? (operand value width .decimal signed).toList =
          some (operandNumber value width signed)) ∧
    (∀ (value value' : Nat) (width width' : Width) (base base' : Base) (signed signed' : Bool),
      operand value width base signed = operand value' width' base' signed' →
        operandNumber value width signed = operandNumber value' width' signed') ∧
    ∀ base, Function.Injective fun bytes => opcodeBytes bytes base := by
  refine ⟨fun value width signed => ⟨?_, ?_⟩, ?_, opcodeBytes_injective⟩
  · exact readNumber?_operand (.inl rfl) value width signed
  · exact readNumber?_operand (.inr rfl) value width signed
  · intro value value' width width' base base' signed signed' h
    have hread := congrArg (fun text => readSigned? text.toList) h
    simp only [readSigned?_operand] at hread
    exact Option.some.inj hread

/-- A byte and a word with the same text in octal. -/
theorem numerals_lossless_sample :
    operand 0x180 .byte .octal true = operand 0xFF80 .word .octal true ∧
      operandNumber 0x180 .byte true = operandNumber 0xFF80 .word true := by
  have htext : operand 0x180 .byte .octal true = operand 0xFF80 .word .octal true := by decide
  exact ⟨htext, numerals_lossless.2.1 0x180 0xFF80 .byte .word .octal .octal true true htext⟩

end Numeral
end Disassembly
