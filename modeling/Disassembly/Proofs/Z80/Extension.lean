/-
# Decoding does not look past the instruction

Every table gives an opcode with the number of bytes that select it, and the bytes that fill the
holes of its form come right after those, or between them behind an index byte and `CB`
(`selects_of_select`). So an instruction that has been decoded has at least one byte and no more than
there are (`decode_length`), and bytes behind it do not change it (`decode_append`).
-/

import Disassembly.Z80.Decode

namespace Disassembly
namespace Z80

namespace Opcode

variable (o : Opcode)

@[simp] theorem plain_selectors (mnemonic : String) (arguments : List Argument)
    (cycles : List Nat) : (plain mnemonic arguments cycles).selectors = 1 := rfl

@[simp] theorem affecting_selectors (flags : Flags) :
    (o.affecting flags).selectors = o.selectors := rfl

@[simp] theorem orCycles_selectors (alternate : List Nat) :
    (o.orCycles alternate).selectors = o.selectors := by
  unfold orCycles; split <;> rfl

@[simp] theorem mapCycles_selectors (f : List Nat → List Nat) :
    (o.mapCycles f).selectors = o.selectors := by
  unfold mapCycles; split <;> rfl

@[simp] theorem jumping_selectors (jump : Jump) : (o.jumping jump).selectors = o.selectors := rfl

@[simp] theorem undocumentedIf_selectors (condition : Bool) :
    (o.undocumentedIf condition).selectors = o.selectors := rfl

@[simp] theorem selectedBy_selectors (selectors : Nat) :
    (o.selectedBy selectors).selectors = selectors := rfl

@[simp] theorem mapArguments_selectors (f : Argument → Argument) :
    (o.mapArguments f).selectors = o.selectors := rfl

end Opcode

/-- An arithmetic opcode is selected by one byte. -/
theorem arithmetic_selectors (y : Nat) (operand : Argument) (cycles : List Nat) :
    (arithmetic y operand cycles).selectors = 1 := by
  unfold arithmetic; split <;> simp

/-- An opcode of the first quarter of the first table is selected by one byte. -/
theorem unprefixed0_selectors (y z : Nat) : (unprefixed0 y z).selectors = 1 := by
  simp only [unprefixed0, accumulator]
  repeat' split
  all_goals simp

/-- A load between registers is selected by one byte. -/
theorem unprefixed1_selectors (y z : Nat) : (unprefixed1 y z).selectors = 1 := by
  unfold unprefixed1; split <;> simp

/-- An opcode of the last quarter of the first table is selected by one byte. -/
theorem unprefixed3_selectors {y z : Nat} {o : Opcode} (h : unprefixed3 y z = some o) :
    o.selectors = 1 := by
  simp only [unprefixed3] at h
  repeat' split at h
  all_goals first
    | (obtain rfl := Option.some.inj h; simp [arithmetic_selectors])
    | exact absurd h (by simp)

/-- An opcode of the first table is selected by one byte. -/
theorem unprefixed_selectors {op : UInt8} {o : Opcode} (h : unprefixed op = some o) :
    o.selectors = 1 := by
  simp only [unprefixed] at h
  split at h
  · obtain rfl := Option.some.inj h
    exact unprefixed0_selectors _ _
  · obtain rfl := Option.some.inj h
    exact unprefixed1_selectors _ _
  · obtain rfl := Option.some.inj h
    exact arithmetic_selectors _ _ _
  · exact unprefixed3_selectors h

/-- An opcode behind an index byte is selected by two bytes. -/
theorem indexed_selectors {op : UInt8} {r : IndexRegister} {o : Opcode}
    (h : indexed op r = some o) : o.selectors = 2 := by
  unfold indexed at h
  obtain ⟨o', -, h⟩ := Option.bind_eq_some_iff.1 h
  simp only at h
  repeat' split at h
  all_goals first
    | (obtain rfl := Option.some.inj h; simp)
    | exact absurd h (by simp)

/-- What holds of the byte of every number below 256 holds of every byte. -/
theorem forall_byte {p : UInt8 → Prop} (h : ∀ n < 256, p (UInt8.ofNat n)) (b : UInt8) : p b := by
  have hb := h b.toNat b.toNat_lt
  rwa [UInt8.ofNat_toNat] at hb

/-- The first table lacks just the four bytes that select another table. -/
theorem unprefixed_eq_none_iff (op : UInt8) :
    unprefixed op = none ↔ op = 0xCB ∨ op = 0xDD ∨ op = 0xED ∨ op = 0xFD := by
  have hall : ∀ n < 256, (unprefixed (UInt8.ofNat n)).isNone = decide (UInt8.ofNat n = 0xCB ∨
      UInt8.ofNat n = 0xDD ∨ UInt8.ofNat n = 0xED ∨ UInt8.ofNat n = 0xFD) := by
    decide +kernel
  have hop := forall_byte (p := fun op => (unprefixed op).isNone =
    decide (op = 0xCB ∨ op = 0xDD ∨ op = 0xED ∨ op = 0xFD)) hall op
  rw [← Option.isNone_iff_eq_none, hop, decide_eq_true_iff]

/-- The byte that selects an index register. -/
def IndexRegister.byte : IndexRegister → UInt8
  | ix => 0xDD
  | iy => 0xFD

/-- The bytes that lead to an opcode, table by table, and the position of its first operand byte. -/
inductive Selects : List UInt8 → Opcode → Nat → Prop
  | unprefixed {op : UInt8} {o : Opcode} (rest : List UInt8) (h : unprefixed op = some o) :
      Selects (op :: rest) o 1
  | bitwise (op : UInt8) (rest : List UInt8) : Selects (0xCB :: op :: rest) (bitwise op) 2
  | extended (op : UInt8) (rest : List UInt8) : Selects (0xED :: op :: rest) (extended op) 2
  | indexed {op : UInt8} {r : IndexRegister} {o : Opcode} (rest : List UInt8) (hop : op ≠ 0xCB)
      (h : indexed op r = some o) : Selects (r.byte :: op :: rest) o 2
  | ignored (r : IndexRegister) (rest : List UInt8) : Selects (r.byte :: rest) .ignoredIndex 1
  | indexedBitwise (r : IndexRegister) (displacement op : UInt8) (rest : List UInt8) :
      Selects (r.byte :: 0xCB :: displacement :: op :: rest) (indexedBitwise op r) 2

/-- **An opcode that is found is found in one of the tables.** -/
theorem selects_of_select {bytes : List UInt8} {o : Opcode} {position : Nat}
    (h : select bytes = .ok (o, position)) : Selects bytes o position := by
  match bytes with
  | [] => simp [select] at h
  | first :: rest =>
    simp only [select] at h
    split at h
    · rename_i hfirst
      subst hfirst
      split at h
      · simp at h
      · obtain ⟨rfl, rfl⟩ := Prod.mk.inj (Except.ok.inj h)
        exact .bitwise _ _
    split at h
    · rename_i hfirst
      subst hfirst
      split at h
      · simp at h
      · obtain ⟨rfl, rfl⟩ := Prod.mk.inj (Except.ok.inj h)
        exact .extended _ _
    split at h
    · rename_i hfirst
      have hr : first = (if first = 0xDD then IndexRegister.ix else .iy).byte := by
        rcases hfirst with rfl | rfl <;> rfl
      generalize (if first = 0xDD then IndexRegister.ix else .iy) = r at h hr
      subst hr
      repeat' split at h
      all_goals simp only [Except.ok.injEq, Prod.mk.injEq, reduceCtorEq] at h
      all_goals obtain ⟨rfl, rfl⟩ := h
      · rename_i hop _ _ _ _
        subst hop
        exact .indexedBitwise _ _ _ _
      · rename_i hop _ _ hi
        exact .indexed _ hop hi
      · exact .ignored _ _
    · rename_i hcb hed hindex
      obtain ⟨rfl, rfl⟩ := Prod.mk.inj (Except.ok.inj h)
      cases hu : unprefixed first with
      | none =>
        rw [unprefixed_eq_none_iff] at hu
        exact absurd hu (by simp_all)
      | some o => exact .unprefixed rest hu

/-- **The first operand byte comes after at least one selecting byte and after no more than all of
them.** -/
theorem select_position {bytes : List UInt8} {o : Opcode} {position : Nat}
    (h : select bytes = .ok (o, position)) : 1 ≤ position ∧ position ≤ o.selectors := by
  cases selects_of_select h with
  | unprefixed rest hu => exact ⟨by omega, Nat.le_of_eq (unprefixed_selectors hu).symm⟩
  | bitwise op rest | extended op rest => exact ⟨by omega, Nat.le_refl 2⟩
  | indexed rest hop hi => exact ⟨by omega, Nat.le_of_eq (indexed_selectors hi).symm⟩
  | ignored r rest => exact ⟨by omega, Nat.le_refl 1⟩
  | indexedBitwise r displacement op rest => exact ⟨by omega, by simp [indexedBitwise]⟩

/-- The bytes behind an opcode do not change which one it is. -/
theorem select_append {bytes : List UInt8} {found : Opcode × Nat} (rest : List UInt8)
    (h : select bytes = .ok found) : select (bytes ++ rest) = .ok found := by
  match bytes with
  | [] => simp [select] at h
  | [_] | [_, _] | [_, _, _] =>
    simp only [select, List.cons_append, List.nil_append] at h ⊢
    repeat' split at h
    all_goals simp_all
  | _ :: _ :: _ :: _ :: _ => simpa only [select, List.cons_append] using h

/-- How many bytes fill the holes of the parts of a form. -/
def holeBytes (ps : List Piece) : Nat := ps.foldr (fun p count => p.size + count) 0

/-- A hole that has its bytes is filled from them alone. -/
theorem operand_append (address : UInt16) (length : Nat) (bytes rest : List UInt8) (h : Hole)
    (hsize : h.size ≤ bytes.length) :
    h.operand address length (bytes ++ rest) = h.operand address length bytes := by
  match h, bytes with
  | .displacement _, _ :: _ | .target, _ :: _ | .byte, _ :: _ => rfl
  | .address, _ :: _ :: _ | .word, _ :: _ :: _ => rfl
  | .displacement _, [] | .target, [] | .byte, [] => simp [Hole.size] at hsize
  | .address, [] | .word, [] | .address, [_] | .word, [_] => simp [Hole.size] at hsize

/-- Operands are filled in from the bytes of the holes alone. -/
theorem fillOperands_append (address : UInt16) (length : Nat) (rest : List UInt8) :
    ∀ (ps : List Piece) (bytes : List UInt8), holeBytes ps ≤ bytes.length →
      fillOperands address length ps (bytes ++ rest) = fillOperands address length ps bytes
  | [], _, _ => rfl
  | .text _ :: ps, bytes, h =>
    fillOperands_append address length rest ps bytes (by simpa [holeBytes, Piece.size] using h)
  | .hole p :: ps, bytes, h => by
    have hp : p.size + holeBytes ps ≤ bytes.length := h
    have hd : holeBytes ps ≤ (bytes.drop p.size).length := by rw [List.length_drop]; omega
    rw [fillOperands, fillOperands, operand_append _ _ _ _ _ (by omega),
      List.drop_append_of_le_length (by omega), fillOperands_append address length rest ps _ hd]

/-- The text of an instruction is filled in from the bytes of the holes alone. -/
theorem fillText_append (address : UInt16) (length : Nat) (base : Base) (rest : List UInt8) :
    ∀ (ps : List Piece) (bytes : List UInt8), holeBytes ps ≤ bytes.length →
      fillText address length base ps (bytes ++ rest) = fillText address length base ps bytes
  | [], _, _ => rfl
  | .text _ :: ps, bytes, h => by
    rw [fillText, fillText,
      fillText_append address length base rest ps bytes (by simpa [holeBytes, Piece.size] using h)]
  | .hole p :: ps, bytes, h => by
    have hp : p.size + holeBytes ps ≤ bytes.length := h
    have hd : holeBytes ps ≤ (bytes.drop p.size).length := by rw [List.length_drop]; omega
    rw [fillText, fillText, operand_append _ _ _ _ _ (by omega),
      List.drop_append_of_le_length (by omega), fillText_append address length base rest ps _ hd]

/-- A decoded instruction comes from an opcode of a table, and its bytes are there. -/
theorem decode_eq_ok {bytes : List UInt8} {address : UInt16} {base : Base} {i : Instruction}
    (h : decode bytes address base = .ok i) :
    ∃ o position, select bytes = .ok (o, position) ∧ o.length ≤ bytes.length ∧
      i = { text := fillText address o.length base o.form.pieces (bytes.drop position)
            opcode := o
            operands := fillOperands address o.length o.form.pieces (bytes.drop position) } := by
  unfold decode at h
  split at h
  · simp at h
  · rename_i o position hs
    split at h
    · simp at h
    · exact ⟨o, position, hs, by omega, (Except.ok.inj h).symm⟩

/-- **A decoded instruction has at least one byte, and no more than there are.** -/
theorem decode_length {bytes : List UInt8} {address : UInt16} {base : Base} {i : Instruction}
    (h : decode bytes address base = .ok i) : 1 ≤ i.length ∧ i.length ≤ bytes.length := by
  obtain ⟨o, position, hs, hlen, rfl⟩ := decode_eq_ok h
  have hp := select_position hs
  refine ⟨?_, hlen⟩
  change 1 ≤ o.selectors + o.form.operandBytes
  omega

/-- **Bytes behind an instruction do not change it.** -/
theorem decode_append {bytes : List UInt8} {address : UInt16} {base : Base} {i : Instruction}
    (rest : List UInt8) (h : decode bytes address base = .ok i) :
    decode (bytes ++ rest) address base = .ok i := by
  obtain ⟨o, position, hs, hlen, rfl⟩ := decode_eq_ok h
  have hp := select_position hs
  have hl : o.length = o.selectors + holeBytes o.form.pieces := rfl
  have hd : holeBytes o.form.pieces ≤ (bytes.drop position).length := by
    rw [List.length_drop]; omega
  have hfit : ¬(bytes ++ rest).length < o.length := by rw [List.length_append]; omega
  unfold decode
  rw [select_append rest hs]
  simp only [if_neg hfit]
  rw [List.drop_append_of_le_length (by omega), fillText_append _ _ _ _ _ _ hd,
    fillOperands_append _ _ _ _ _ hd]

end Z80
end Disassembly
