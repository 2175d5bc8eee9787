/-
# Messages and the end of their block

A message that ends at the end of its block or at a byte of a certain kind never leaves the block. A
message whose length is told in front goes by that length alone: as long as it fits, it stays in the
block as well (`messageDump_block`), but a length that is too large takes the message past the end,
and the end of the block with it (`messageDump_passes_end`).
-/

import Disassembly.Proofs.Routine.MessageRun

namespace Disassembly

/-- **A script is inside its block**: at one of its addresses. -/
def Script.Context.IsInside (c : Script.Context) : Prop :=
  c.blockStart.toNat ≤ c.position ∧ c.position < c.resume

namespace Routine

open Script

namespace Message

variable {setting : Setting} {style : Style} {t : Terminator} {c c₁ c' : Context}
  {bytes : List UInt8}

/-- **What a message shows of bytes.** A length in front is shown as a number, and there are as many
bytes behind it as it says. -/
inductive Shown (charset : CharacterSet) (style : Style) :
    Terminator → List UInt8 → List Sign → Prop
  | plain {t : Terminator} {bytes : List UInt8} {signs : List Sign}
    (ht : t = .raw ∨ t = .zero ∨ t = .highBit)
    (h : List.Forall₂ (Stands charset style) bytes signs) : Shown charset style t bytes signs
  | lengthByte {b : UInt8} {bytes : List UInt8} {signs : List Sign} (hlength : bytes.length = b.toNat)
    (h : List.Forall₂ (Stands charset style) bytes signs) :
    Shown charset style .lengthByte (b :: bytes)
      (.other (Numeral.operand b.toNat .byte style.base false) :: signs)
  | lengthWord {b b' : UInt8} {bytes : List UInt8} {signs : List Sign}
    (hlength : bytes.length = (Image.combine false b b').toNat)
    (h : List.Forall₂ (Stands charset style) bytes signs) :
    Shown charset style .lengthWord (b :: b' :: bytes)
      (.other (Numeral.operand bytes.length .word style.base false) :: signs)
  | lengthWordBigEndian {b b' : UInt8} {bytes : List UInt8} {signs : List Sign}
    (hlength : bytes.length = (Image.combine true b b').toNat)
    (h : List.Forall₂ (Stands charset style) bytes signs) :
    Shown charset style .lengthWordBigEndian (b :: b' :: bytes)
      (.other (Numeral.operand bytes.length .word style.base false) :: signs)

/-- A message behind its length ends the block. -/
theorem counted_eq_ok {number : Nat} {width : Width}
    (hprogress : Progress setting style c [] width.bytes c₁)
    (hrun : (counted setting style number width >>= style.flush setting) c₁ = .ok () c') :
    ∃ (bytes : List UInt8) (pages : List (List Sign)), bytes.length = number ∧
      setting.image.Holds (c.position + width.bytes)
        (bytes.take (0x10000 - (c.position + width.bytes))) ∧
      pages.flatten = .other (Numeral.operand number width style.base false) ::
        style.signs setting.charset 0 bytes ∧
      Progress setting style
        (c.setBlockEnd (c.currentAddress + UInt16.ofNat (width.bytes + number) - 1)) pages
        (width.bytes + number) c' := by
  have hlead : Writes setting style c [.other (Numeral.operand number width style.base false)]
      width.bytes (style.number {} number width) c₁ := ⟨[], _, rfl, Draft.has_item _ _, hprogress⟩
  obtain ⟨d, c₂, hcounted, hflush⟩ := bind_eq_ok hrun
  obtain ⟨d', c₃, hbody, hrest⟩ := bind_eq_ok hcounted
  obtain ⟨rfl, rfl⟩ := EStateM.Result.ok.inj hrest
  obtain ⟨bytes, hlength, hholds, hwrites⟩ := hlead.body_eq_ok hbody
  obtain ⟨pages, c'', hflush', hsigns, hend⟩ := hwrites.endBlockHere.flush
  obtain ⟨-, rfl⟩ := EStateM.Result.ok.inj (hflush.symm.trans hflush')
  exact ⟨bytes, pages, hlength, hholds, hsigns, hend⟩

/-- **What a dump has done**: it shows bytes from the position on, and the block ends at `last`. -/
structure Dumped (setting : Setting) (style : Style) (t : Terminator) (c : Context)
    (bytes : List UInt8) (last : UInt16) (c' : Context) : Prop where
  shown : ∃ pages : List (List Sign), Shown setting.charset style t bytes pages.flatten ∧
    Progress setting style (c.setBlockEnd last) pages bytes.length c'
  /-- The bytes in the address space are those of the buffer. -/
  holds : setting.image.Holds c.position (bytes.take (0x10000 - c.position))
  ends : EndsBlock c bytes last

/-- A message without a length in front is one that lies in the block. -/
theorem dumped_plain (ht : t = .raw ∨ t = .zero ∨ t = .highBit)
    (hrun : run setting style t c = .ok () c') :
    ∃ bytes last, Dumped setting style t c bytes last c' ∧ bytes.length ≤ c.remaining := by
  obtain ⟨bytes, hholds, hmessage⟩ := message_of_run ht hrun
  obtain ⟨last, c'', hrun', ⟨pages, hstands, hprogress⟩, hends⟩ :=
    run_of_message style ht hmessage hholds
  obtain ⟨-, rfl⟩ := EStateM.Result.ok.inj (hrun.symm.trans hrun')
  exact ⟨bytes, last, ⟨⟨pages, .plain ht hstands, hprogress⟩, hholds.take _, hends⟩,
    hmessage.length_le⟩

/-- A message behind a length byte goes by its length. -/
theorem dumped_lengthByte (hrun : run setting style .lengthByte c = .ok () c') :
    ∃ bytes last, Dumped setting style .lengthByte c bytes last c' := by
  obtain ⟨b, c₁, hb, hrest⟩ := bind_eq_ok hrun
  have hbyte := byte?_of_nextByte hb
  obtain rfl := eq_advance_of_nextByte hb
  obtain ⟨bytes, pages, hlength, hholds, hsigns, hprogress⟩ :=
    counted_eq_ok (Progress.start setting style c).advance hrest
  have hcount : Width.byte.bytes + b.toNat = (b :: bytes).length := by
    rw [List.length_cons, hlength, Nat.add_comm]
    rfl
  rw [hcount] at hprogress
  refine ⟨b :: bytes, _, ⟨pages, ?_, hprogress⟩, Image.holds_take_cons (fun _ => hbyte) hholds,
    .inr ⟨List.cons_ne_nil _ _, rfl⟩⟩
  rw [hsigns]
  exact .lengthByte hlength (stands_signs _ _ bytes 0)

/-- Two bytes are read one after the other. -/
theorem nextByte_nextByte {b b' : UInt8} {c₂ : Context} (style : Style)
    (hb : Action.nextByte setting c = .ok b c₁) (hb' : Action.nextByte setting c₁ = .ok b' c₂) :
    Progress setting style c [] 2 c₂ ∧
      ∀ {bytes : List UInt8},
        setting.image.Holds (c.position + 2) (bytes.take (0x10000 - (c.position + 2))) →
        setting.image.Holds c.position ((b :: b' :: bytes).take (0x10000 - c.position)) := by
  have hbyte := byte?_of_nextByte hb
  have hbyte' := byte?_of_nextByte hb'
  obtain rfl := eq_advance_of_nextByte hb
  obtain rfl := eq_advance_of_nextByte hb'
  have hprogress := (Progress.start setting style c).advance
  refine ⟨hprogress.advance, fun hholds => ?_⟩
  refine Image.holds_take_cons (fun _ => hbyte) (Image.holds_take_cons (fun htop => ?_) hholds)
  rwa [hprogress.position htop] at hbyte'

/-- A message behind a length word goes by its length. -/
theorem dumped_lengthWord {b b' : UInt8} {bigEndian : Bool} {c₂ : Context}
    (hshown : ∀ {bytes : List UInt8} {signs : List Sign},
      bytes.length = (Image.combine bigEndian b b').toNat →
      List.Forall₂ (Stands setting.charset style) bytes signs →
      Shown setting.charset style t (b :: b' :: bytes)
        (.other (Numeral.operand bytes.length .word style.base false) :: signs))
    (hb : Action.nextByte setting c = .ok b c₁) (hb' : Action.nextByte setting c₁ = .ok b' c₂)
    (hrun : (counted setting style (Image.combine bigEndian b b').toNat .word >>=
      style.flush setting) c₂ = .ok () c') :
    ∃ bytes last, Dumped setting style t c bytes last c' := by
  obtain ⟨hlead, hwhole⟩ := nextByte_nextByte style hb hb'
  obtain ⟨bytes, pages, hlength, hholds, hsigns, hprogress⟩ := counted_eq_ok hlead hrun
  have hcount : Width.word.bytes + bytes.length = (b :: b' :: bytes).length := by
    rw [List.length_cons, List.length_cons, Nat.add_comm]
    rfl
  rw [← hlength] at hsigns hprogress
  rw [hcount] at hprogress
  refine ⟨b :: b' :: bytes, _, ⟨pages, ?_, hprogress⟩, hwhole hholds,
    .inr ⟨List.cons_ne_nil _ _, rfl⟩⟩
  rw [hsigns]
  exact hshown hlength (stands_signs _ _ bytes 0)

/-- **A dump that ends well shows bytes from the position on.** Only a message with a length in front
can have more of them than are left of the block. -/
theorem dumped_of_run (hrun : run setting style t c = .ok () c') :
    ∃ bytes last, Dumped setting style t c bytes last c' ∧
      (t = .raw ∨ t = .zero ∨ t = .highBit → bytes.length ≤ c.remaining) := by
  by_cases ht : t = .raw ∨ t = .zero ∨ t = .highBit
  · obtain ⟨bytes, last, hdumped, hlength⟩ := dumped_plain ht hrun
    exact ⟨bytes, last, hdumped, fun _ => hlength⟩
  · have hdumped : ∃ bytes last, Dumped setting style t c bytes last c' := by
      cases t with
      | raw | zero | highBit => exact absurd (by simp) ht
      | lengthByte => exact dumped_lengthByte hrun
      | lengthWord =>
        obtain ⟨b, c₁, hb, hrest⟩ := bind_eq_ok hrun
        obtain ⟨b', c₂, hb', hrest⟩ := bind_eq_ok hrest
        exact dumped_lengthWord .lengthWord hb hb' hrest
      | lengthWordBigEndian =>
        obtain ⟨b, c₁, hb, hrest⟩ := bind_eq_ok hrun
        obtain ⟨b', c₂, hb', hrest⟩ := bind_eq_ok hrest
        exact dumped_lengthWord .lengthWordBigEndian hb hb' hrest
    obtain ⟨bytes, last, hdumped⟩ := hdumped
    exact ⟨bytes, last, hdumped, fun h => absurd h ht⟩

/-! ### The end of the block -/

/-- What is left of a block inside which a script is. -/
theorem position_add_remaining_of_isInside (h : c.IsInside) :
    c.position + c.remaining = c.blockEnd.toNat + 1 ∧ c.position < 0x10000 := by
  have hend := c.blockEnd.toNat_lt
  obtain ⟨hstart, hresume⟩ := h
  have hemptied : c.emptied = false := by
    by_contra hemptied
    rw [Context.resume, if_pos (by simpa using hemptied)] at hresume
    omega
  have hresume' : c.resume = c.blockEnd.toNat + 1 := by
    rw [Context.resume, hemptied]
    rfl
  unfold Context.remaining
  omega

/-- The address of the last of some bytes, if they lie in the address space. -/
theorem toNat_last (hposition : c.position < 0x10000) (hne : bytes ≠ [])
    (htop : c.position + bytes.length ≤ 0x10000) :
    (c.currentAddress + UInt16.ofNat bytes.length - 1).toNat = c.position + bytes.length - 1 := by
  have haddress := Context.toNat_currentAddress hposition
  have hpos := List.length_pos_iff.2 hne
  rw [UInt16.toNat_sub, UInt16.toNat_add, haddress, UInt16.toNat_ofNat']
  show (65536 - 1 + (_ + _) % 65536) % 65536 = _
  omega

end Message

variable {setting : Setting} {c c' : Context} {a : Arguments} {t : Terminator}
  {style : Message.Style}

/-- **Whether a message stays in its block.** A dump inside a block that ends well shows bytes from the
current address on. With a message that has no length in front they are bytes of the block. As long
as they are, the end of the block does not move up; where a length in front asks for more, the byte
behind the block is shown too, and below the top of the address space the end of the block moves up.
-/
theorem messageDump_block (hinside : c.IsInside) (ha : a.AsksMessage c.format.base t style)
    (hrun : messageDump setting a c = .ok () c') :
    ∃ (bytes : List UInt8) (pages : List (List Message.Sign)),
      Message.Shown setting.charset style t bytes pages.flatten ∧
      Message.OnLines setting style c pages c' ∧
      (t = .raw ∨ t = .zero ∨ t = .highBit → bytes.length ≤ c.remaining) ∧
      (bytes.length ≤ c.remaining →
        setting.image.Holds c.position bytes ∧ c'.blockEnd ≤ c.blockEnd) ∧
      (c.remaining < bytes.length →
        (c.blockEnd < 0xFFFF → setting.image.Holds c.position (bytes.take (c.remaining + 1))) ∧
        (c.position + bytes.length ≤ 0x10000 → c.blockEnd < c'.blockEnd)) := by
  rw [messageDump_eq ha] at hrun
  obtain ⟨bytes, last, ⟨⟨pages, hshown, hprogress⟩, hholds, hends⟩, hplain⟩ :=
    Message.dumped_of_run hrun
  obtain ⟨hblock, hposition⟩ := Message.position_add_remaining_of_isInside hinside
  have hlast := c.blockEnd.toNat_lt
  have hend : c'.blockEnd = last := hprogress.blockEnd
  refine ⟨bytes, pages, hshown, hprogress.lines, hplain, fun hroom => ⟨?_, ?_⟩,
    fun hover => ⟨fun htop => ?_, fun htop => ?_⟩⟩
  · rwa [List.take_of_length_le (by omega)] at hholds
  · rw [hend, UInt16.le_iff_toNat_le]
    rcases hends with ⟨-, rfl⟩ | ⟨hne, rfl⟩
    · exact Nat.le_refl _
    · rw [Message.toNat_last hposition hne (by omega)]
      omega
  · have htop : c.blockEnd.toNat < 0xFFFF := UInt16.lt_iff_toNat_lt.1 htop
    have hbehind := hholds.take (c.remaining + 1)
    rwa [List.take_take, Nat.min_eq_left (by omega)] at hbehind
  · rw [hend, UInt16.lt_iff_toNat_lt]
    rcases hends with ⟨hlength, -⟩ | ⟨hne, rfl⟩
    · omega
    · rw [Message.toNat_last hposition hne htop]
      omega

/-- A length byte that asks for three bytes, in front of three letters and an instruction. -/
def countedBytes : Setting :=
  ⟨⟨#[0x03, 0x41, 0x42, 0x43, 0xC9], 0, 0x7000, 5, by decide, by decide⟩, {}, Spectrum.charset,
    Spectrum.floats⟩

/-- A script over the length byte and as many of the letters as there is room for. -/
def countedContext (last : UInt16) : Context := .start countedBytes (.ofList []) ∅ 0x7000 last

theorem countedContext_asks (last : UInt16) :
    Arguments.AsksMessage ⟨"MessageDump", [.string "len1"], []⟩ (countedContext last).format.base
      .lengthByte ⟨"DM1", .hex, 0⟩ := by
  have hname : "len1".toLower = "len1" := by decide +kernel
  refine ⟨⟨"len1", rfl, ?_⟩, rfl, rfl, rfl⟩
  simp only [Terminator.ofName?, hname]

/-- A message of three letters stays in a block that has room for them. -/
theorem messageDump_block_countedBytes :
    (countedContext 0x7003).IsInside ∧
      ∃ c', messageDump countedBytes ⟨"MessageDump", [.string "len1"], []⟩ (countedContext 0x7003) =
          .ok () c' ∧
        ∃ bytes pages, Message.Shown Spectrum.charset ⟨"DM1", .hex, 0⟩ .lengthByte bytes
            pages.flatten ∧
          Message.OnLines countedBytes ⟨"DM1", .hex, 0⟩ (countedContext 0x7003) pages c' ∧
          (bytes.length ≤ 4 → countedBytes.image.Holds 0x7000 bytes ∧ c'.blockEnd ≤ 0x7003) := by
  have hinside : (countedContext 0x7003).IsInside := ⟨by decide, by decide⟩
  have hrun := (messageDump_eq (countedContext_asks 0x7003)).trans
    (rfl : Message.run countedBytes ⟨"DM1", .hex, 0⟩ .lengthByte (countedContext 0x7003) = .ok () _)
  obtain ⟨bytes, pages, hshown, hlines, -, hroom, -⟩ :=
    messageDump_block hinside (countedContext_asks 0x7003) hrun
  exact ⟨hinside, _, hrun, bytes, pages, hshown, hlines, hroom⟩

/-- **A length in front can take a message past its block.** The block has room for one of the three
letters; all three are shown, and the block ends behind them. -/
theorem messageDump_passes_end :
    (countedContext 0x7001).IsInside ∧
      ∃ c', messageDump countedBytes ⟨"MessageDump", [.string "len1"], []⟩ (countedContext 0x7001) =
          .ok () c' ∧
        (countedContext 0x7001).blockEnd < c'.blockEnd ∧
        c'.lines.toList.filterMap Line.dataText? = ["DM1  #03,\"ABC\""] := by
  have hrun := (messageDump_eq (countedContext_asks 0x7001)).trans
    (rfl : Message.run countedBytes ⟨"DM1", .hex, 0⟩ .lengthByte (countedContext 0x7001) = .ok () _)
  exact ⟨⟨by decide, by decide⟩, _, hrun, by decide, by decide⟩

end Routine
end Disassembly
