/-
# What a cut-off instruction needs

The decoder finds out in two places that bytes are missing: while it looks for the opcode, behind a
byte that selects another table, and when it compares the length of the opcode with the number of
bytes (`decode_eq_error`). Either way it asks for more bytes than there are, and no fewer would do
(`select_error_append`, `decode_error_append`). So what has been decoded stays as it is when more
bytes come, a report of missing bytes stays true until they have come, and four bytes always are
enough (`decode_extends`).
-/

import Disassembly.Proofs.Z80.Sweep

namespace Disassembly
namespace Z80

variable {bytes : List UInt8} {address : UInt16} {base : Base} {needed : Nat} {t : Truncated}

/-- Bytes in which no opcode is found are fewer than it takes, and it takes no more than the longest
instruction has. -/
theorem select_error_bounds (h : select bytes = .error needed) :
    bytes.length < needed ∧ needed ≤ longest := by
  match bytes with
  | [] | [_] | [_, _] | [_, _, _] =>
    simp only [select] at h
    repeat' split at h
    all_goals first
      | obtain rfl := Except.error.inj h
        constructor <;> simp [longest]
      | exact absurd h (by simp)
  | b₀ :: b₁ :: b₂ :: b₃ :: rest =>
    have hlong : longest ≤ (b₀ :: b₁ :: b₂ :: b₃ :: rest).length := by simp [longest]
    obtain ⟨found, hfound⟩ := exists_select hlong
    rw [h] at hfound
    exact absurd hfound (by simp)

/-- **No opcode is found as long as there are fewer bytes than it takes.** -/
theorem select_error_append (h : select bytes = .error needed) {rest : List UInt8}
    (hshort : (bytes ++ rest).length < needed) : select (bytes ++ rest) = .error needed := by
  have hneeded := (select_error_bounds h).2
  match bytes, rest with
  | _, [] => rwa [List.append_nil]
  | [], b :: rest =>
    obtain rfl := Except.error.inj h
    simp at hshort
  | [b₀], b :: rest =>
    -- a second byte is asked for at most, and here it has come
    simp only [select] at h
    repeat' split at h
    all_goals first
      | obtain rfl := Except.error.inj h
        simp only [List.length_append, List.length_cons] at hshort
        omega
      | exact absurd h (by simp)
  | [b₀, b₁], [b₂] =>
    simp only [select, List.cons_append, List.nil_append] at h ⊢
    repeat' split at h
    all_goals simp_all
  | [b₀, b₁], b₂ :: b₃ :: rest => simp [longest] at hshort hneeded; omega
  | b₀ :: b₁ :: b₂ :: bs, b :: rest => simp [longest] at hshort hneeded; omega

/-- An instruction is cut off before its opcode is found, or after that. -/
theorem decode_eq_error (h : decode bytes address base = .error t) :
    t = ⟨address, t.needed, bytes.length⟩ ∧
      (select bytes = .error t.needed ∨ ∃ o position, select bytes = .ok (o, position) ∧
        bytes.length < o.length ∧ t.needed = o.length) := by
  unfold decode at h
  split at h
  · rename_i needed hselect
    obtain rfl := Except.error.inj h
    exact ⟨rfl, .inl hselect⟩
  · rename_i o position hselect
    split at h
    · rename_i hlength
      obtain rfl := Except.error.inj h
      exact ⟨rfl, .inr ⟨o, position, hselect, hlength, rfl⟩⟩
    · exact absurd h (by simp)

/-- **An instruction that is cut off needs more bytes than there are, and no more than the longest
one has.** -/
theorem decode_error_bounds (h : decode bytes address base = .error t) :
    bytes.length < t.needed ∧ t.needed ≤ longest := by
  obtain ⟨-, hselect | ⟨o, position, hselect, hlength, hneeded⟩⟩ := decode_eq_error h
  · exact select_error_bounds hselect
  · rw [hneeded]
    exact ⟨hlength, select_length_le hselect⟩

/-- **An instruction stays cut off as long as there are fewer bytes than it needs.** -/
theorem decode_error_append (h : decode bytes address base = .error t) {rest : List UInt8}
    (hshort : (bytes ++ rest).length < t.needed) :
    decode (bytes ++ rest) address base =
      .error { t with available := (bytes ++ rest).length } := by
  obtain ⟨ht, hselect | ⟨o, position, hselect, -, hneeded⟩⟩ := decode_eq_error h
  · unfold decode
    rw [ht, select_error_append hselect hshort]
  · rw [hneeded] at hshort
    unfold decode
    rw [ht, select_append rest hselect]
    simp only [if_pos hshort, hneeded]

/-- A report that the bytes at an address end partway through an instruction is right: `needed` bytes
are more than there are, fewer never do, and four always do. -/
structure Truncated.IsSound (t : Truncated) (bytes : List UInt8) (address : UInt16) (base : Base) :
    Prop where
  available : t.available = bytes.length
  short : t.available < t.needed
  bounded : t.needed ≤ 4
  still : ∀ rest : List UInt8, (bytes ++ rest).length < t.needed →
    ∃ t', decode (bytes ++ rest) address base = .error t' ∧ t'.needed = t.needed
  enough : ∀ rest : List UInt8, 4 ≤ (bytes ++ rest).length →
    ∃ i, decode (bytes ++ rest) address base = .ok i

/-- **Decoding is stable under extension.** An instruction that has been decoded is the same with any
bytes behind it, and one that is cut off needs as many bytes as the decoder says. -/
theorem decode_extends (bytes : List UInt8) (address : UInt16) (base : Base) :
    (∀ i, decode bytes address base = .ok i →
      ∀ rest, decode (bytes ++ rest) address base = .ok i) ∧
    ∀ t, decode bytes address base = .error t → t.IsSound bytes address base := by
  refine ⟨fun i h rest => decode_append rest h, fun t h => ?_⟩
  obtain ⟨hshort, hbounded⟩ := decode_error_bounds h
  have havailable : t.available = bytes.length := congrArg Truncated.available (decode_eq_error h).1
  exact
    { available := havailable
      short := by rw [havailable]; exact hshort
      bounded := hbounded
      still := fun rest hrest => ⟨_, decode_error_append h hrest, rfl⟩
      enough := fun rest hrest => exists_decode hrest address base }

/-- Behind an index byte and `CB` the displacement alone does not help: the opcode comes after it. -/
example : decode [0xFD, 0xCB] 0 .hex = .error ⟨0, 4, 2⟩ ∧
    decode [0xFD, 0xCB, 0x05] 0 .hex = .error ⟨0, 4, 3⟩ := by
  constructor <;> rfl

end Z80
end Disassembly
