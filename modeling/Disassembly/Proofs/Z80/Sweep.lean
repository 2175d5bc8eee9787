/-
# Instructions one behind the other

No instruction has more than four bytes, so four bytes always hold a whole one (`exists_decode`), and
the bytes behind the fourth do not matter to the decoder (`decode_take_longest`). How long an
instruction is does not hang on its address or on the base of its operands. So bytes fall into
instructions, one behind the other, in one way, up to the bytes of a last one that is cut off
(`leftover`).
-/

import Disassembly.Proofs.Z80.Extension

namespace Disassembly
namespace Z80

variable {bytes : List UInt8} {address : UInt16} {base : Base} {i : Instruction}

/-! ### The longest instruction -/

theorem unprefixed_length_le {op : UInt8} {o : Opcode} (h : unprefixed op = some o) :
    o.length ≤ longest := by
  have hall : ∀ n < 256, (unprefixed (UInt8.ofNat n)).all (·.length ≤ longest) = true := by
    decide +kernel
  have hop := forall_byte (p := fun op => (unprefixed op).all (·.length ≤ longest) = true) hall op
  rw [h] at hop
  exact of_decide_eq_true hop

theorem indexed_length_le {op : UInt8} {r : IndexRegister} {o : Opcode}
    (h : indexed op r = some o) : o.length ≤ longest := by
  have hall (r : IndexRegister) :
      ∀ n < 256, (indexed (UInt8.ofNat n) r).all (·.length ≤ longest) = true := by
    cases r <;> decide +kernel
  have hop := forall_byte (p := fun op => (indexed op r).all (·.length ≤ longest) = true)
    (hall r) op
  rw [h] at hop
  exact of_decide_eq_true hop

theorem bitwise_length_le (op : UInt8) : (bitwise op).length ≤ longest :=
  forall_byte (p := fun op => (bitwise op).length ≤ longest) (by decide +kernel) op

theorem extended_length_le (op : UInt8) : (extended op).length ≤ longest :=
  forall_byte (p := fun op => (extended op).length ≤ longest) (by decide +kernel) op

theorem indexedBitwise_length_le (op : UInt8) (r : IndexRegister) :
    (indexedBitwise op r).length ≤ longest := by
  cases r
  · exact forall_byte (p := fun op => (indexedBitwise op .ix).length ≤ longest)
      (by decide +kernel) op
  · exact forall_byte (p := fun op => (indexedBitwise op .iy).length ≤ longest)
      (by decide +kernel) op

/-- **No opcode that is found has more bytes than the longest.** -/
theorem select_length_le {o : Opcode} {position : Nat} (h : select bytes = .ok (o, position)) :
    o.length ≤ longest := by
  cases selects_of_select h with
  | unprefixed rest hu => exact unprefixed_length_le hu
  | bitwise op rest => exact bitwise_length_le op
  | extended op rest => exact extended_length_le op
  | indexed rest hop hi => exact indexed_length_le hi
  | ignored r rest => decide
  | indexedBitwise r displacement op rest => exact indexedBitwise_length_le op r

/-- In as many bytes as the longest instruction has, an opcode is found. -/
theorem exists_select (h : longest ≤ bytes.length) : ∃ found, select bytes = .ok found := by
  match bytes, h with
  | b₀ :: b₁ :: b₂ :: b₃ :: rest, _ =>
    simp only [select]
    repeat' split
    all_goals exact ⟨_, rfl⟩
  | [], h | [_], h | [_, _], h | [_, _, _], h => simp [longest] at h

/-- An opcode whose bytes are there is an instruction, at any address and in any base. -/
theorem decode_of_select {o : Opcode} {position : Nat} (h : select bytes = .ok (o, position))
    (hfits : o.length ≤ bytes.length) (address : UInt16) (base : Base) :
    ∃ i, decode bytes address base = .ok i ∧ i.length = o.length := by
  unfold decode
  simp only [h, Nat.not_lt.2 hfits, if_false]
  exact ⟨_, rfl, rfl⟩

/-- **As many bytes as the longest instruction has hold a whole one.** -/
theorem exists_decode (h : longest ≤ bytes.length) (address : UInt16) (base : Base) :
    ∃ i, decode bytes address base = .ok i := by
  obtain ⟨⟨o, position⟩, hselect⟩ := exists_select h
  have hlength := select_length_le hselect
  obtain ⟨i, hi, -⟩ := decode_of_select hselect (by omega) address base
  exact ⟨i, hi⟩

/-- **The decoder looks at no more bytes than the longest instruction has.** -/
theorem decode_take_longest (bytes : List UInt8) (address : UInt16) (base : Base) :
    decode (bytes.take longest) address base = decode bytes address base := by
  by_cases h : bytes.length ≤ longest
  · rw [List.take_of_length_le h]
  · have htake : longest ≤ (bytes.take longest).length := by
      rw [List.length_take]
      omega
    obtain ⟨i, hi⟩ := exists_decode htake address base
    have hwhole := decode_append (bytes.drop longest) hi
    rw [List.take_append_drop] at hwhole
    rw [hi, hwhole]

/-- What is cut off is shorter than the longest instruction. -/
theorem length_lt_of_decode_error {e : Truncated} (h : decode bytes address base = .error e) :
    bytes.length < longest := by
  refine Nat.lt_of_not_le fun hlength => ?_
  obtain ⟨i, hi⟩ := exists_decode hlength address base
  rw [h] at hi
  exact absurd hi (by simp)

/-! ### What is cut off -/

/-- An instruction has the same length at any other address and in any other base. -/
theorem decode_readdress (h : decode bytes address base = .ok i) (address' : UInt16)
    (base' : Base) : ∃ j, decode bytes address' base' = .ok j ∧ j.length = i.length := by
  obtain ⟨o, position, hselect, hfits, rfl⟩ := decode_eq_ok h
  exact decode_of_select hselect hfits address' base'

/-- The bytes that are left over when instructions are decoded one behind the other: those of an
instruction that is cut off, or none. -/
def leftover (bytes : List UInt8) : List UInt8 :=
  match _decoded : decode bytes 0 .hex with
  | .error _ => bytes
  | .ok i => leftover (bytes.drop i.length)
  termination_by bytes.length
  decreasing_by
    have hlength := decode_length _decoded
    rw [List.length_drop]
    omega

/-- Behind an instruction the same bytes are left over. -/
theorem leftover_of_ok (h : decode bytes address base = .ok i) :
    leftover bytes = leftover (bytes.drop i.length) := by
  obtain ⟨j, hj, hlength⟩ := decode_readdress h 0 .hex
  rw [leftover]
  split
  · rename_i hd
    rw [hj] at hd
    exact absurd hd (by simp)
  · rename_i i' hd
    rw [hj] at hd
    obtain rfl := Except.ok.inj hd
    rw [hlength]

/-- An instruction that is cut off is left over. -/
theorem leftover_of_error {e : Truncated} (h : decode bytes address base = .error e) :
    leftover bytes = bytes := by
  rw [leftover]
  split
  · rfl
  · rename_i i hd
    obtain ⟨j, hj, -⟩ := decode_readdress hd address base
    rw [h] at hj
    exact absurd hj (by simp)

end Z80
end Disassembly
