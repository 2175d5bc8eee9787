/-
# Stored scopes are read back

A scope packs into a number below `2 ^ 32` that holds each option in bits of its own, so the options
can be taken out again (`unpack_pack`). A change of one option that has a simple value is given by
its option number and a byte (`ofOption?_byte?`).
-/

import Disassembly.Scope.Change
import Mathlib.Algebra.Ring.Nat

namespace Disassembly

theorem Base.code_lt (base : Base) : base.code < 4 := by
  cases base <;> decide

theorem Base.ofCode_eq {base : Base} {n : Nat} (h : n % 4 = base.code) : ofCode n = base := by
  cases base <;> simp [ofCode, code, h]

theorem TimingDisplay.code_lt (display : TimingDisplay) : display.code < 4 := by
  cases display <;> decide

theorem TimingDisplay.ofCode_eq {display : TimingDisplay} {n : Nat} (h : n % 4 = display.code) :
    ofCode n = display := by
  cases display <;> simp [ofCode, code, h]

theorem LineAfterJump.code_lt (lines : LineAfterJump) : lines.code < 4 := by
  cases lines <;> decide

theorem LineAfterJump.ofCode_eq {lines : LineAfterJump} {n : Nat} (h : n % 4 = lines.code) :
    ofCode n = lines := by
  cases lines <;> simp [ofCode, code, h]

theorem LabelPolicy.code_lt (policy : LabelPolicy) : policy.code < 4 := by
  cases policy <;> decide

theorem LabelPolicy.ofCode_eq {policy : LabelPolicy} {n : Nat} (h : n % 4 = policy.code) :
    ofCode n = policy := by
  cases policy <;> simp [ofCode, code, h]

namespace Scope

/-- The bits of the base of opcode bytes, or of none. -/
def opcodeBits (base : Option Base) : Nat :=
  match base with
  | none => 0
  | some base => base.code + 1

theorem opcodeBits_lt (base : Option Base) : opcodeBits base < 5 := by
  cases base with
  | none => decide
  | some base => exact Nat.succ_lt_succ base.code_lt

/-- **Each option of a packed scope has bits of its own.** -/
theorem pack_bits (s : Scope) :
    s.pack % 4 = s.addressBase.code ∧ s.pack / 0x4 % 4 = s.numberBase.code ∧
      s.pack / 0x10 % 8 = opcodeBits s.opcodeBytes ∧ s.pack / 0x80 % 4 = s.timing.code ∧
      s.pack / 0x200 % 4 = s.lineAfterJump.code ∧ s.pack / 0x800 % 4 = s.labels.code ∧
      s.pack / 0x2000 % 2 = s.comments.toNat ∧ s.pack / 0x4000 % 2 = s.flags.toNat ∧
      s.pack / 0x8000 % 2 = s.markUndocumented.toNat ∧ s.pack / 0x10000 % 2 = s.markup.toNat ∧
      s.pack / 0x20000 % 2 = s.dataReferences.toNat ∧ s.pack / 0x1000000 = s.labelPeriod.toNat := by
  have hpack : s.pack = s.addressBase.code + 0x4 * s.numberBase.code
    + 0x10 * opcodeBits s.opcodeBytes + 0x80 * s.timing.code + 0x200 * s.lineAfterJump.code
    + 0x800 * s.labels.code + 0x2000 * s.comments.toNat + 0x4000 * s.flags.toNat
    + 0x8000 * s.markUndocumented.toNat + 0x10000 * s.markup.toNat
    + 0x20000 * s.dataReferences.toNat + 0x1000000 * s.labelPeriod.toNat := rfl
  have haddress := s.addressBase.code_lt
  have hnumber := s.numberBase.code_lt
  have hopcode := opcodeBits_lt s.opcodeBytes
  have htiming := s.timing.code_lt
  have hlines := s.lineAfterJump.code_lt
  have hlabels := s.labels.code_lt
  have hcomments := s.comments.toNat_le
  have hflags := s.flags.toNat_le
  have hundocumented := s.markUndocumented.toNat_le
  have hmarkup := s.markup.toNat_le
  have hreferences := s.dataReferences.toNat_le
  refine ⟨?_, ?_, ?_, ?_, ?_, ?_, ?_, ?_, ?_, ?_, ?_, ?_⟩ <;> omega

/-- A packed scope fits in eight hexadecimal digits. -/
theorem pack_lt (s : Scope) : s.pack < 0x100000000 := by
  obtain ⟨-, -, -, -, -, -, -, -, -, -, -, hperiod⟩ := s.pack_bits
  have := s.labelPeriod.toNat_lt
  omega

/-- A truth value in a bit of its own is read back. -/
theorem testBit_eq {n weight : Nat} {b : Bool} (i : Nat) (hweight : weight = 2 ^ i)
    (h : n / weight % 2 = b.toNat) : n.testBit i = b := by
  rw [Nat.testBit_eq_decide_div_mod_eq, ← hweight, h]
  cases b <;> rfl

/-- The base of opcode bytes, or none, is read back. -/
theorem opcodeBytes_unpack {packed : Nat} {base : Option Base}
    (h : packed / 0x10 % 8 = opcodeBits base) (separator : String) :
    (unpack packed separator).opcodeBytes = base := by
  simp only [unpack, h]
  cases base with
  | none => rfl
  | some base => exact congrArg some (Base.ofCode_eq (Nat.mod_eq_of_lt base.code_lt))

/-- **The options of a packed scope are read back.** -/
theorem unpack_pack (s : Scope) : unpack s.pack s.separator = s := by
  obtain ⟨haddress, hnumber, hopcode, htiming, hlines, hlabels, hcomments, hflags, hundocumented,
    hmarkup, hreferences, hperiod⟩ := s.pack_bits
  have hbytes := opcodeBytes_unpack hopcode s.separator
  simp only [unpack] at hbytes
  simp only [unpack, Base.ofCode_eq haddress, Base.ofCode_eq hnumber, hbytes,
    TimingDisplay.ofCode_eq htiming, LineAfterJump.ofCode_eq hlines, LabelPolicy.ofCode_eq hlabels,
    testBit_eq 13 rfl hcomments, testBit_eq 14 rfl hflags, testBit_eq 15 rfl hundocumented,
    testBit_eq 16 rfl hmarkup, testBit_eq 17 rfl hreferences, hperiod, UInt8.ofNat_toNat]

namespace Change

/-- **A change with a simple value is read back from its option number and its byte.** -/
theorem ofOption?_byte? {change : Change} {value : UInt8} (h : change.byte? = some value) :
    ofOption? change.option value = some change := by
  cases change with
  | addressBase x | numberBase x | timing x | lineAfterJump x | labels x | comments x | flags x
  | markUndocumented x | markup x | dataReferences x =>
    obtain rfl := Option.some.inj h
    cases x <;> rfl
  | opcodeBytes base =>
    cases base with
    | none =>
      obtain rfl := Option.some.inj h
      rfl
    | some base =>
      obtain rfl := Option.some.inj h
      cases base <;> rfl
  | labelPeriod lines =>
    obtain rfl := Option.some.inj h
    rfl
  | separator text | custom scope => exact absurd h (by simp [byte?])

/-- A change that is read from a byte has a value of one byte. -/
theorem byte?_of_ofOption? {option value : UInt8} {change : Change}
    (h : ofOption? option value = some change) : ∃ byte, change.byte? = some byte := by
  cases change with
  | separator text | custom scope =>
    simp only [ofOption?] at h
    split at h <;> simp at h
  | opcodeBytes base => cases base <;> exact ⟨_, rfl⟩
  | _ => exact ⟨_, rfl⟩

end Change
end Scope
end Disassembly
