/-
# Where a block ends that is shrunk

A script may end its block early, behind the bytes that it has read so far. It reads them one by one
and ends lines in between, where it likes (`Move`). What counts then is the line that is open: it
starts behind the bytes of the lines before, and the address of a start wraps at the top of the
address space (`Reading`). Below the top the block ends behind the bytes read, however they are
divided into lines. If they reach the top, that is so only if the open line has some of them, and
not all 65536; otherwise the position has become zero, which makes the block empty
(`shrink_resumes`).
-/

import Disassembly.Proofs.Image.Window
import Disassembly.Proofs.Routine.MessageRun
import Disassembly.Proofs.Script.DumpPrograms
import Disassembly.Proofs.Script.Frame
import Disassembly.Walk

namespace Disassembly
namespace Script

open Routine

/-- What a script does with the bytes of its block. -/
inductive Move
  /-- It reads the next byte, and writes it. -/
  | byte
  /-- It ends the line. -/
  | lineEnd
  deriving DecidableEq

/-- The construct for a move. -/
def Move.text : Move → List Char
  | byte => ['%', 'B', '2', 'F']
  | lineEnd => ['%', 'E']

/-- How many bytes are in the open line behind a move. -/
def Move.opened (bytes : Nat) : Move → Nat
  | byte => bytes + 1
  | lineEnd => 0

/-- How many bytes are read. -/
def bytesRead (moves : List Move) : Nat := moves.count .byte

/-- How many bytes are read behind the last line end. -/
def openBytes (moves : List Move) : Nat := moves.foldl Move.opened 0

/-- The script that makes moves and then shrinks its block. -/
def shrinkText (moves : List Move) : List Char := moves.flatMap Move.text ++ ['%', 'Q']

variable {setting : Setting} {program cs : List Char} {first : UInt16} {count bytes : Nat}
  {c : Context}

/-! ### Bytes that have been read -/

/-- A script has read bytes from the first address of its block on, some of them for the line that
is open. -/
structure Reading (first : UInt16) (count bytes : Nat) (c : Context) : Prop where
  blockStart : c.blockStart = first
  lineStart : c.lineStart.toNat = (first.toNat + (count - bytes)) % 0x10000
  lineOffset : c.lineOffset.toNat = bytes % 0x10000
  le : bytes ≤ count

theorem reading_start (setting : Setting) (overlay : Overlay) (references : Std.TreeSet UInt16)
    (first last : UInt16) :
    Reading first 0 0 (.start setting overlay references first last) where
  blockStart := rfl
  lineStart := (Nat.mod_eq_of_lt first.toNat_lt).symm
  lineOffset := rfl
  le := Nat.le_refl 0

namespace Reading

theorem toNat_currentAddress (h : Reading first count bytes c) :
    c.currentAddress.toNat = (first.toNat + count) % 0x10000 := by
  have hle := h.le
  rw [Context.currentAddress, UInt16.toNat_add, h.lineStart, h.lineOffset]
  omega

/-- A byte more is in the open line. -/
theorem advance (h : Reading first count bytes c) :
    Reading first (count + 1) (bytes + 1) (c.advance 1) where
  blockStart := h.blockStart
  lineStart := by
    show c.lineStart.toNat = _
    rw [h.lineStart, Nat.add_sub_add_right]
  lineOffset := by
    show (c.lineOffset + 1).toNat = _
    rw [UInt16.toNat_add, h.lineOffset]
    exact (Nat.add_mod bytes 1 0x10000).symm
  le := Nat.succ_le_succ h.le

theorem pushText (h : Reading first count bytes c) (setting : Setting) (text : String) :
    Reading first count bytes (c.pushText setting text) := by
  unfold Context.pushText
  split <;> exact ⟨h.blockStart, h.lineStart, h.lineOffset, h.le⟩

/-- Behind the end of a line no byte is in the open one. -/
theorem endLine (h : Reading first count bytes c) (setting : Setting) :
    Reading first count 0 (c.endLine setting) := by
  have hstart : (c.endLine setting).lineStart = c.currentAddress := by
    unfold Context.endLine
    split <;> rfl
  have hblock : (c.endLine setting).blockStart = c.blockStart := by
    unfold Context.endLine
    split <;> rfl
  exact
    { blockStart := hblock.trans h.blockStart
      lineStart := by rw [hstart, h.toNat_currentAddress, Nat.sub_zero]
      lineOffset := by rw [Context.endLine_lineOffset]; rfl
      le := Nat.zero_le _ }

theorem endBlockHere (h : Reading first count bytes c) :
    Reading first count bytes c.endBlockHere := by
  unfold Context.endBlockHere
  exact ⟨h.blockStart, h.lineStart, h.lineOffset, h.le⟩

/-! ### The end of the block -/

/-- **Where a block ends that is shrunk behind the bytes read.** -/
theorem resume_endBlockHere (h : Reading first count bytes c) (hcount : 0 < count)
    (htop : first.toNat + count ≤ 0x10000) :
    c.endBlockHere.resume =
      if first.toNat + count < 0x10000 ∨ 0 < bytes ∧ bytes < 0x10000 then first.toNat + count
      else first.toNat := by
  have hle := h.le
  have hposition : c.position =
      (first.toNat + (count - bytes)) % 0x10000 + bytes % 0x10000 := by
    rw [Context.position, h.lineStart, h.lineOffset]
  have hresume : c.endBlockHere.resume =
      if c.position = 0 then first.toNat else (c.position + 0xFFFF) % 0x10000 + 1 := by
    simp only [Context.resume, Context.endBlockHere, h.blockStart, UInt16.toNat_ofNat',
      decide_eq_true_eq]
  rw [hresume]
  split_ifs with hzero hgood <;> omega

/-- **What a shrunk block leaves behind**: where the walk goes on, and how many bytes are left. -/
theorem shrink (h : Reading first count bytes c) (setting : Setting) (hcount : 0 < count)
    (htop : first.toNat + count ≤ 0x10000) :
    (c.shrink setting).resume =
        (if first.toNat + count < 0x10000 ∨ 0 < bytes ∧ bytes < 0x10000 then first.toNat + count
          else first.toNat) ∧
      (c.shrink setting).remaining =
        if first.toNat + count < 0x10000 then 0 else (c.shrink setting).resume := by
  have hended := h.endBlockHere
  have hresume : (c.shrink setting).resume = c.endBlockHere.resume := by
    have hstart : (c.shrink setting).blockStart = c.endBlockHere.blockStart :=
      (hended.endLine setting).blockStart.trans hended.blockStart.symm
    unfold Context.resume
    rw [hstart, Context.shrink, Context.endLine_emptied, Context.endLine_blockEnd]
  have hposition : (c.shrink setting).position = (first.toNat + count) % 0x10000 := by
    rw [Context.shrink, (Context.currentAddress_endLine setting _).2]
    exact hended.toNat_currentAddress
  rw [h.resume_endBlockHere hcount htop] at hresume
  refine ⟨hresume, ?_⟩
  rw [Context.remaining, hresume, hposition]
  split_ifs <;> omega

end Reading

/-! ### Scripts that read and shrink -/

/-- The image has the next bytes of a block. -/
def HasBytes (image : Image) (first : UInt16) (count : Nat) : Prop :=
  ∀ i < count, ∃ b, image.byte? (first.toNat + i) = some b

/-- **A script makes its moves and shrinks its block.** The induction is on the moves, with the
bytes read so far and those in the open line. -/
theorem ends_moves (moves : List Move) (h : Reading first count bytes c)
    (hbytes : HasBytes setting.image first (count + bytesRead moves))
    (htop : first.toNat + (count + bytesRead moves) ≤ 0x10000) :
    ∃ c₁, Reading first (count + bytesRead moves) (moves.foldl Move.opened bytes) c₁ ∧
      Ends setting program false {} (shrinkText moves) c ⟨true, .onward⟩ []
        (c₁.shrink setting) := by
  induction moves generalizing count bytes c with
  | nil =>
    refine ⟨c, h, Ends.simple (by decide) rfl (Nat.le_refl _) ?_⟩
    exact ends_nil setting program {} _
  | cons move moves ih =>
    cases move with
    | byte =>
      have hcount : bytesRead (.byte :: moves) = bytesRead moves + 1 := List.count_cons_self
      rw [hcount, show count + (bytesRead moves + 1) = count + 1 + bytesRead moves by omega]
        at hbytes htop ⊢
      obtain ⟨b, hb⟩ := hbytes count (by omega)
      have hcurrent : c.currentAddress.toNat = first.toNat + count := by
        rw [h.toNat_currentAddress]
        omega
      rw [← hcurrent] at hb
      have hsimple := simple_readByte hb (shrinkText moves)
      obtain ⟨c₁, hreading, hends⟩ := ih (h.advance.pushText setting _) hbytes htop
      have hlength : (shrinkText moves).length ≤ ('2' :: 'F' :: shrinkText moves).length := by
        simp only [List.length_cons]
        omega
      exact ⟨c₁, hreading, Ends.simple (by decide) hsimple hlength hends⟩
    | lineEnd =>
      have hcount : bytesRead (.lineEnd :: moves) = bytesRead moves :=
        List.count_cons_of_ne (by decide)
      rw [hcount] at hbytes htop ⊢
      obtain ⟨c₁, hreading, hends⟩ := ih (h.endLine setting) hbytes htop
      exact ⟨c₁, hreading, Ends.simple (by decide) rfl (Nat.le_refl _) hends⟩

/-- A run over a block that is shrunk behind its moves. -/
theorem run_shrink (moves : List Move) (hread : 0 < bytesRead moves)
    (hbytes : HasBytes setting.image first (bytesRead moves))
    (htop : first.toNat + bytesRead moves ≤ 0x10000) (overlay : Overlay)
    (references : Std.TreeSet UInt16) (last : UInt16) :
    ∃ c', run setting (String.ofList (shrinkText moves))
        (.start setting overlay references first last) = .ok ⟨true, .onward⟩ c' ∧
      c'.resume =
        (if first.toNat + bytesRead moves < 0x10000 ∨
            0 < openBytes moves ∧ openBytes moves < 0x10000 then first.toNat + bytesRead moves
          else first.toNat) ∧
      c'.remaining = if first.toNat + bytesRead moves < 0x10000 then 0 else c'.resume := by
  have hstart := reading_start setting overlay references first last
  rw [← Nat.zero_add (bytesRead moves)] at hbytes htop
  obtain ⟨c₁, hreading, hends⟩ := ends_moves moves hstart hbytes htop
  rw [Nat.zero_add] at hreading htop
  have hskip : Source.skipNewline (shrinkText moves) = shrinkText moves := by
    cases moves with
    | nil => rfl
    | cons move moves => cases move <;> rfl
  refine ⟨c₁.shrink setting, run_of_ends [] ?_, hreading.shrink setting hread htop⟩
  rw [String.toList_ofList, hskip]
  exact hends

end Script

open Script

/-- **Where a shrunk block ends.** A script that reads the first bytes of a block inside an image,
ends lines wherever it likes, and shrinks the block, ends well. Below the top of the address space
the block then ends behind the bytes read, nothing of it is left, and the walk goes on there. If the
bytes reach the top, the block ends there only if the line open last has some of them and not 65536,
and otherwise it is empty and the walk goes on behind its first byte. The position has become zero
then, and all addresses in front of the end count as left. -/
theorem shrink_resumes (setting : Setting) (first last : UInt16) (moves : List Move)
    (hfirst : setting.image.origin ≤ first) (hlast : last.toNat < setting.image.stop)
    (hread : 1 ≤ bytesRead moves) (hblock : first.toNat + bytesRead moves ≤ last.toNat + 1) :
    let ended := first.toNat + bytesRead moves
    let reached := ended < 0x10000 ∨ 0 < openBytes moves ∧ openBytes moves < 0x10000
    let program := String.ofList (shrinkText moves)
    (∀ overlay references, ∃ c',
      run setting program (.start setting overlay references first last) =
          .ok ⟨true, .onward⟩ c' ∧
        c'.resume = (if reached then ended else first.toNat) ∧
        c'.remaining = if ended < 0x10000 then 0 else c'.resume) ∧
      ∀ (m : Machine) (w : Walk), w.setting m = setting →
        ∃ w', w.dataBlock m first.toNat last program =
          .ok (if reached then ended else first.toNat + 1, w') := by
  intro ended reached program
  have hstop := setting.image.inSpace
  have hstop_eq : setting.image.stop = setting.image.origin.toNat + setting.image.length := rfl
  rw [UInt16.le_iff_toNat_le] at hfirst
  have hbytes : HasBytes setting.image first (bytesRead moves) := by
    intro i hi
    have hlo : setting.image.origin.toNat ≤ first.toNat + i := by omega
    have hhi : first.toNat + i < setting.image.stop := by omega
    obtain ⟨b, hb, -⟩ := Image.windowFrom_eq_cons hlo hhi
    exact ⟨b, hb⟩
  have htop : first.toNat + bytesRead moves ≤ 0x10000 := by omega
  refine ⟨fun overlay references => ?_, fun m w hsetting => ?_⟩
  · exact run_shrink moves hread hbytes htop overlay references last
  · obtain ⟨c', hrun, hresume, -⟩ :=
      run_shrink moves hread hbytes htop w.overlay w.references (min last m.image.last)
    have hcontext : w.context m first.toNat last =
        .start setting w.overlay w.references first (min last m.image.last) := by
      rw [Walk.context, hsetting, UInt16.ofNat_toNat]
    have hnext : max c'.resume (first.toNat + 1) = if reached then ended else first.toNat + 1 := by
      rw [hresume]
      show max (if reached then ended else first.toNat) (first.toNat + 1) = _
      split_ifs <;> omega
    rw [Walk.dataBlock, hcontext, hsetting, hrun, ← hnext]
    exact ⟨_, rfl⟩

/-- Two bytes at the top of the address space. -/
def topBytes : Setting :=
  ⟨⟨#[0x3E, 0x41], 0, 0xFFFE, 2, by decide, by decide⟩, {}, Spectrum.charset, Spectrum.floats⟩

/-- Both are read, the second one for the line that is open last. -/
theorem shrink_resumes_topBytes :
    topBytes.image.origin ≤ 0xFFFE ∧ (0xFFFF : UInt16).toNat < topBytes.image.stop ∧
      1 ≤ bytesRead [.byte, .lineEnd, .byte] ∧
      (0xFFFE : UInt16).toNat + bytesRead [.byte, .lineEnd, .byte] ≤ (0xFFFF : UInt16).toNat + 1 ∧
      ∀ overlay references, ∃ c',
        run topBytes (String.ofList (shrinkText [.byte, .lineEnd, .byte]))
            (.start topBytes overlay references 0xFFFE 0xFFFF) = .ok ⟨true, .onward⟩ c' ∧
          c'.resume = 0x10000 ∧ c'.remaining = 0x10000 := by
  have hresumes := shrink_resumes topBytes 0xFFFE 0xFFFF [.byte, .lineEnd, .byte] (by decide)
    (by decide) (by decide) (by decide)
  refine ⟨by decide, by decide, by decide, by decide, fun overlay references => ?_⟩
  obtain ⟨c', hrun, hresume, hremaining⟩ := hresumes.1 overlay references
  have hended : c'.resume = 0x10000 := hresume.trans (by decide)
  have hleft : c'.remaining = c'.resume := hremaining.trans (if_neg (by decide))
  exact ⟨c', hrun, hended, hleft.trans hended⟩

/-- If the line is ended behind both bytes, the block is empty. -/
theorem shrink_ended_line_top :
    (ending (run topBytes "%B2F%B2F%E%Q" (.start topBytes (.ofList []) ∅ 0xFFFE 0xFFFF))).resume =
        0xFFFE ∧
      (ending (run topBytes "%B2F%B2F%E%Q"
        (.start topBytes (.ofList []) ∅ 0xFFFE 0xFFFF))).remaining = 0xFFFE := by
  decide +kernel

end Disassembly
