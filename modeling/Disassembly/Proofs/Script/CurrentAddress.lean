/-
# Reads at the current address

A context has one current address, but two ways to count up to it. The address wraps at the top of
the address space; the position is the same sum without the wrap. Operands read at the address. The
next byte of a routine and the search for a byte pattern read at the position, and images do not
wrap addresses. So the two ways to read agree below the top, and above it only where the buffer goes
on behind its byte `FFFF` with the byte that stands at the wrapped address (`reads_here`).
-/

import Disassembly.Proofs.Routine.MessageRun
import Disassembly.Proofs.Script.DumpPrograms
import Disassembly.Proofs.Script.Frame

namespace Disassembly

/-- The bytes of a pattern stand in an image from an address on; those left open may be any. -/
def Image.Matches (image : Image) (address : Nat) (pattern : List (Option UInt8)) : Prop :=
  ∀ i expected, pattern[i]? = some expected →
    ∃ b, image.byte? (address + i) = some b ∧ ∀ e, expected = some e → b = e

namespace Script

open Routine

variable {setting : Setting} {c : Context}

/-! ### The next byte -/

/-- The position is the current address, or lies one address space behind it. -/
theorem Context.position_eq (c : Context) :
    c.position = if c.position < 0x10000 then c.currentAddress.toNat
      else c.currentAddress.toNat + 0x10000 := by
  have hstart := c.lineStart.toNat_lt
  have hoffset := c.lineOffset.toNat_lt
  have hcurrent : c.currentAddress.toNat = c.position % 0x10000 := UInt16.toNat_add _ _
  unfold position at hcurrent ⊢
  split <;> omega

/-- The next byte as a number. -/
theorem map_nextByte {b : UInt8} (h : setting.image.byte? c.position = some b) :
    (UInt8.toUInt16 <$> Action.nextByte setting) c = .ok b.toUInt16 (c.advance 1) := by
  rw [map_eq_pure_bind, bind_ok (nextByte_eq h)]
  rfl

/-- A byte outside of the buffer is an error, and nothing moves on. -/
theorem map_nextByte_of_none (h : setting.image.byte? c.position = none) :
    (UInt8.toUInt16 <$> Action.nextByte setting) c = .error (.outOfRange c.position) c := by
  have hread : Action.readByte setting c.position = throw (.outOfRange c.position) := by
    rw [Action.readByte, h]
  rw [map_eq_pure_bind, Action.nextByte, bind_assoc, bind_ok (get_apply c), hread]
  rfl

theorem evaluate_here_of_none (h : setting.image.byte? c.currentAddress.toNat = none) :
    (⟨0x2F, none⟩ : Operand).evaluate setting .byte c =
      .error (.outOfRange c.currentAddress.toNat) c := by
  have hread : Action.readByte setting c.currentAddress.toNat =
      throw (.outOfRange c.currentAddress.toNat) := by
    rw [Action.readByte, h]
  change ((UInt8.toUInt16 <$> Action.readByte setting c.currentAddress.toNat) >>= fun n =>
    modify (·.advance 1) >>= fun _ => pure n) c = _
  rw [hread]
  rfl

/-- **When the next byte is the one at the current address**, as an operand reads it, with the same
error or the same context behind it. -/
theorem nextByte_eq_evaluate_iff (setting : Setting) (c : Context) :
    (UInt8.toUInt16 <$> Action.nextByte setting) c =
        (⟨0x2F, none⟩ : Operand).evaluate setting .byte c ↔
      c.position < 0x10000 ∨ ∃ b, setting.image.byte? c.currentAddress.toNat = some b ∧
        setting.image.byte? (c.currentAddress.toNat + 0x10000) = some b := by
  have hposition := c.position_eq
  by_cases hbelow : c.position < 0x10000
  · rw [if_pos hbelow] at hposition
    simp only [hbelow, true_or, iff_true]
    cases hbyte : setting.image.byte? c.currentAddress.toNat with
    | some b => rw [evaluate_here hbyte, map_nextByte (hposition ▸ hbyte)]
    | none =>
      rw [evaluate_here_of_none hbyte, map_nextByte_of_none (hposition ▸ hbyte), ← hposition]
  · rw [if_neg hbelow] at hposition
    simp only [hbelow, false_or]
    rw [← hposition]
    cases hbyte : setting.image.byte? c.position with
    | none =>
      rw [map_nextByte_of_none hbyte]
      cases hwrapped : setting.image.byte? c.currentAddress.toNat with
      | some b => simp [evaluate_here hwrapped]
      | none =>
        have hne : c.position ≠ c.currentAddress.toNat := by omega
        simp [evaluate_here_of_none hwrapped, hne]
    | some b =>
      rw [map_nextByte hbyte]
      cases hwrapped : setting.image.byte? c.currentAddress.toNat with
      | none => simp [evaluate_here_of_none hwrapped]
      | some b' =>
        have hinj : b.toUInt16 = b'.toUInt16 ↔ b = b' := by
          rw [← UInt16.toNat_inj, ← UInt8.toNat_inj, UInt8.toNat_toUInt16, UInt8.toNat_toUInt16]
        simp [evaluate_here hwrapped, hinj]

/-! ### The search for a byte pattern -/

theorem matchesAt_iff (image : Image) (address : Nat) (pattern : List (Option UInt8)) :
    matchesAt image address pattern = true ↔ image.Matches address pattern := by
  induction pattern generalizing address with
  | nil => simp [matchesAt, Image.Matches]
  | cons expected rest ih =>
    have hmatches : image.Matches address (expected :: rest) ↔
        (∃ b, image.byte? address = some b ∧ ∀ e, expected = some e → b = e) ∧
          image.Matches (address + 1) rest := by
      constructor
      · intro h
        refine ⟨h 0 expected rfl, fun i e hi => ?_⟩
        have hnext := h (i + 1) e hi
        rwa [show address + (i + 1) = address + 1 + i by omega] at hnext
      · rintro ⟨hfirst, hrest⟩ i e hi
        cases i with
        | zero => exact Option.some.inj hi ▸ hfirst
        | succ i =>
          rw [show address + (i + 1) = address + 1 + i by omega]
          exact hrest i e hi
    rw [hmatches]
    unfold matchesAt
    cases image.byte? address with
    | none => simp
    | some actual => cases expected <;> simp [ih]

/-- Arguments that ask for a byte pattern. -/
def AsksFor (a : Arguments) (pattern : List (Option UInt8)) : Prop :=
  (∃ text, a.string "bytes" 0 "" = .ok text ∧ readPattern text = .ok pattern) ∧
    (∃ comment, a.string? "comment" 1 = .ok comment) ∧
    ∃ letter position, a.string "position" 2 "E" = .ok letter ∧
      letter.toList.head?.bind Position.ofLetter? = some position

/-- The search for a pattern that is asked for. -/
theorem findBytes_of_asksFor {a : Arguments} {pattern : List (Option UInt8)}
    (h : AsksFor a pattern) (setting : Setting) (c : Context) :
    ∃ c', findBytes setting a c = .ok (matchesAt setting.image c.position pattern) c' := by
  obtain ⟨⟨text, htext, hpattern⟩, ⟨comment, hcomment⟩, letter, position, hletter, hposition⟩ := h
  rw [findBytes, htext, hcomment, hletter]
  simp only [ofExcept_ok, hpattern, hposition, pure_bind]
  rw [bind_ok (get_apply c)]
  cases matchesAt setting.image c.position pattern with
  | false => exact ⟨c, rfl⟩
  | true =>
    cases comment with
    | none => exact ⟨c, rfl⟩
    | some text => exact ⟨_, rfl⟩

/-- A search that is answered is one for a pattern. -/
theorem asksFor_of_findBytes {a : Arguments} {c c' : Context} {found : Bool}
    (h : findBytes setting a c = .ok found c') : ∃ pattern, AsksFor a pattern := by
  obtain ⟨text, htext, h⟩ := ofExcept_bind_eq_ok h
  cases hpattern : readPattern text with
  | error flaw => simp [hpattern, Arguments.error, Action.ofExcept, bind_apply] at h
  | ok pattern =>
    simp only [hpattern, pure_bind] at h
    obtain ⟨comment, hcomment, h⟩ := ofExcept_bind_eq_ok h
    obtain ⟨letter, hletter, h⟩ := ofExcept_bind_eq_ok h
    cases hposition : letter.toList.head?.bind Position.ofLetter? with
    | none => simp [hposition, Arguments.error, Action.ofExcept, bind_apply] at h
    | some position =>
      exact ⟨pattern, ⟨text, htext, hpattern⟩, ⟨comment, hcomment⟩, letter, position, hletter,
        hposition⟩

/-- **What the search for a byte pattern answers.** -/
theorem findBytes_eq_ok_iff (setting : Setting) (a : Arguments) (c : Context) (found : Bool) :
    (∃ c', findBytes setting a c = .ok found c') ↔
      ∃ pattern, AsksFor a pattern ∧ (found = true ↔ setting.image.Matches c.position pattern) := by
  constructor
  · rintro ⟨c', h⟩
    obtain ⟨pattern, hasks⟩ := asksFor_of_findBytes h
    obtain ⟨c'', hrun⟩ := findBytes_of_asksFor hasks setting c
    obtain ⟨rfl, -⟩ := EStateM.Result.ok.inj (h.symm.trans hrun)
    exact ⟨pattern, hasks, matchesAt_iff _ _ _⟩
  · rintro ⟨pattern, hasks, hfound⟩
    obtain ⟨c', hrun⟩ := findBytes_of_asksFor hasks setting c
    rw [← matchesAt_iff, ← Bool.eq_iff_iff] at hfound
    exact ⟨c', hfound ▸ hrun⟩

/-- **Reads at the current address.** The next byte of a routine is read as an operand reads the
byte at the current address, with the same byte or error and the same context behind it, exactly if
the position is below the top of the address space, or if the buffer has the same byte at both. The
search for a byte pattern answers whenever its arguments ask for one, and tells whether it stands
from the current address on below the top, and one address space further on above it. -/
theorem reads_here (setting : Setting) (c : Context) :
    ((UInt8.toUInt16 <$> Action.nextByte setting) c =
        (⟨0x2F, none⟩ : Operand).evaluate setting .byte c ↔
      c.position < 0x10000 ∨ ∃ b, setting.image.byte? c.currentAddress.toNat = some b ∧
        setting.image.byte? (c.currentAddress.toNat + 0x10000) = some b) ∧
      ∀ a found, (∃ c', findBytes setting a c = .ok found c') ↔
        ∃ pattern, AsksFor a pattern ∧
          (found = true ↔ setting.image.Matches
            (if c.position < 0x10000 then c.currentAddress.toNat
              else c.currentAddress.toNat + 0x10000) pattern) := by
  refine ⟨nextByte_eq_evaluate_iff setting c, fun a found => ?_⟩
  rw [← c.position_eq]
  exact findBytes_eq_ok_iff setting a c found

/-- Three bytes at the start of the address space. -/
def lettersBytes : Setting :=
  ⟨⟨#[0x41, 0x42, 0x43], 0, 0, 3, by decide, by decide⟩, {}, Spectrum.charset, Spectrum.floats⟩

/-- A script that ends a line behind the first byte and goes back to it. -/
def backToFirst : EStateM.Result Error Context Outcome :=
  run lettersBytes "%B2F%E%X0CC00000" (.start lettersBytes (.ofList []) ∅ 0 2)

/-- An operand reads the first byte there. The next byte of a routine is outside of the buffer, and
so is the pattern that is searched for. -/
theorem reads_differ_backToFirst :
    ∃ outcome c, backToFirst = .ok outcome c ∧
      (⟨0x2F, none⟩ : Operand).evaluate lettersBytes .byte c = .ok 0x41 (c.advance 1) ∧
      (UInt8.toUInt16 <$> Action.nextByte lettersBytes) c = .error (.outOfRange 0x10000) c ∧
      lettersBytes.image.Matches c.currentAddress.toNat [some 0x41] ∧
      ∃ c', findBytes lettersBytes ⟨"FindBytes", [.string "41"], []⟩ c = .ok false c' := by
  have hok : (match backToFirst with | .ok _ _ => true | .error _ _ => false) = true := by
    decide +kernel
  have hslots : (ending backToFirst).lineStart = 1 ∧ (ending backToFirst).lineOffset = 0xFFFF := by
    decide +kernel
  cases hrun : backToFirst with
  | error e c =>
    rw [hrun] at hok
    cases hok
  | ok outcome c =>
    rw [hrun] at hslots
    obtain ⟨hstart, hoffset⟩ : c.lineStart = 1 ∧ c.lineOffset = 0xFFFF := hslots
    have hcurrent : c.currentAddress = 0 := by
      rw [Context.currentAddress, hstart, hoffset]
      rfl
    have hposition : c.position = 0x10000 := by
      rw [Context.position, hstart, hoffset]
      rfl
    have hbyte : lettersBytes.image.byte? c.currentAddress.toNat = some 0x41 := by
      rw [hcurrent]
      rfl
    have hnone : lettersBytes.image.byte? c.position = none := by
      rw [hposition]
      decide
    have hasks : AsksFor ⟨"FindBytes", [.string "41"], []⟩ [some 0x41] :=
      ⟨⟨"41", rfl, rfl⟩, ⟨none, rfl⟩, "E", .endOfLine, rfl, by decide⟩
    obtain ⟨c', hfind⟩ := findBytes_of_asksFor hasks lettersBytes c
    have hfound : matchesAt lettersBytes.image c.position [some 0x41] = false := by
      simp [matchesAt, hnone]
    rw [hfound] at hfind
    refine ⟨outcome, c, rfl, evaluate_here hbyte, ?_, ?_, c', hfind⟩
    · rw [map_nextByte_of_none hnone, hposition]
    · rw [← matchesAt_iff]
      simp [matchesAt, hbyte]

end Script
end Disassembly
