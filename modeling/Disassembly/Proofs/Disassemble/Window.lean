/-
# Bytes outside the window

A script may read the whole buffer of an image, on either side of the window. Decoding an instruction
and dumping raw bytes do not: two images whose windows have the same addresses and hold the same bytes
(`SameWindow`) are walked alike, stop by stop, whatever lies around the windows in their buffers. So
where every byte is decoded or dumped as it is, the listing shows nothing of what is outside the
window (`disassemble_sameWindow`), and an instruction that the end of the window cuts off is never
completed from behind it. A window that ends at the last address of the address space is left out,
because a dump up to there runs on into the buffer.
-/

import Disassembly.Proofs.Disassemble.Blocks

namespace Disassembly
namespace Image

/-- Two images whose windows have the same addresses and hold the same bytes. Their buffers may
differ in everything else, also in where the windows lie in them. -/
structure SameWindow (image image' : Image) : Prop where
  origin : image.origin = image'.origin
  length : image.length = image'.length
  bytes : image.data.extract image.offset (image.offset + image.length) =
    image'.data.extract image'.offset (image'.offset + image'.length)

/-- The bytes from an address to the end of the window are the last of the bytes of the window. -/
theorem windowFrom_eq_drop (image : Image) (address : Nat) :
    image.windowFrom address =
      if image.contains address then
        (image.data.extract image.offset (image.offset + image.length)).toList.drop
          (address - image.origin.toNat)
      else [] := by
  unfold windowFrom
  split
  · rw [Array.toList_extract, Array.toList_extract, List.extract, List.extract, List.drop_take,
      List.drop_drop]
    congr 1
    omega
  · rfl

namespace SameWindow

variable {image image' : Image} (h : image.SameWindow image')

include h

theorem stop_eq : image.stop = image'.stop := by
  unfold stop
  rw [h.origin, h.length]

theorem last_eq : image.last = image'.last := by
  unfold last
  rw [h.stop_eq]

theorem windowFrom_eq (address : Nat) : image.windowFrom address = image'.windowFrom address := by
  have hcontains : image.contains address = image'.contains address := by
    unfold contains
    rw [h.origin, h.stop_eq]
  rw [windowFrom_eq_drop, windowFrom_eq_drop, hcontains, h.bytes, h.origin]

theorem windowUpTo_eq (address count : Nat) :
    image.windowUpTo address count = image'.windowUpTo address count := by
  rw [windowUpTo_eq_take, windowUpTo_eq_take, h.windowFrom_eq]

end SameWindow
end Image

namespace Walk

open Script

variable {m m' : Machine} {cursor : Nat} {w : Walk} {last : UInt16}

/-- Two computations that succeed with the same result. -/
def Agree {ε α : Type} (r r' : Except ε α) : Prop := ∃ a, r = .ok a ∧ r' = .ok a

theorem Agree.map {ε α β : Type} {r r' : Except ε α} (h : Agree r r') (f : α → β) :
    Agree (r.map f) (r'.map f) := by
  obtain ⟨a, rfl, rfl⟩ := h
  exact ⟨f a, rfl, rfl⟩

/-- A line of raw bytes is written from the scope alone. -/
theorem writeRawLine_congr (m m' : Machine) (w : Walk) (base : Base) :
    writeRawLine (w.setting m) base = writeRawLine (w.setting m') base := rfl

/-- **The lines of a block of raw bytes are the same** in images with the same window. -/
theorem rawDone_congr (h : m.image.SameWindow m'.image) (w : Walk) (cursor : Nat) (last : UInt16) :
    rawDone m w cursor last = rawDone m' w cursor last := by
  have hbytes : blockBytes m cursor last = blockBytes m' cursor last := by
    unfold blockBytes blockStop
    rw [h.windowFrom_eq, h.stop_eq]
  have hcontext : w.context m cursor last = w.context m' cursor last := by
    unfold context
    rw [h.last_eq]
    rfl
  unfold rawDone writeRaw
  rw [hbytes, hcontext, writeRawLine_congr m m']

/-- A window that ends before the last address has no block up to the last address. -/
theorem min_last_ne_top (hstop : m.image.stop < 0x10000) (hhi : cursor < m.image.stop)
    (last : UInt16) : min last m.image.last ≠ 0xFFFF := by
  intro htop
  have hblock := toNat_min_last m last
  have htoNat : (0xFFFF : UInt16).toNat = 0xFFFF := by decide
  rw [htop, htoNat] at hblock
  unfold blockStop at hblock
  omega

section Stop

-- a stop inside windows that are the same and end before the last address
variable (h : m.image.SameWindow m'.image) (hstop : m.image.stop < 0x10000)
  (hlo : m.image.origin.toNat ≤ cursor) (hhi : cursor < m.image.stop)

include h hstop hlo hhi

/-- **A block of raw bytes is rendered alike.** -/
theorem dataBlock_agree (hlast : cursor ≤ last.toNat) :
    Agree (w.dataBlock m cursor last Preset.rawBytes)
      (w.dataBlock m' cursor last Preset.rawBytes) := by
  have hlo' : m'.image.origin.toNat ≤ cursor := by rwa [← h.origin]
  have hhi' : cursor < m'.image.stop := by rwa [← h.stop_eq]
  have hstop' : m'.image.stop < 0x10000 := by rwa [← h.stop_eq]
  have hblock : blockStop m last = blockStop m' last := by
    unfold blockStop
    rw [h.stop_eq]
  have hrun := dataBlock_rawBytes (w := w) hlo hhi hlast (min_last_ne_top hstop hhi last)
  have hrun' := dataBlock_rawBytes (w := w) hlo' hhi' hlast (min_last_ne_top hstop' hhi' last)
  rw [hblock, rawDone_congr h] at hrun
  exact ⟨_, hrun, hrun'⟩

/-- **An instruction is decoded alike**, and what is cut off is dumped alike. -/
theorem decodeLine_agree : Agree (w.decodeLine m cursor) (w.decodeLine m' cursor) := by
  rw [decodeLine, decodeLine, ← h.windowUpTo_eq, ← h.last_eq]
  cases Z80.decode (m.image.windowUpTo cursor Z80.longest) (UInt16.ofNat cursor)
      w.scope.numberBase with
  | error e =>
    have hlast : cursor ≤ m.image.last.toNat := by
      rw [toNat_last]
      omega
    simp only
    exact dataBlock_agree h hstop hlo hhi hlast
  | ok i => exact ⟨_, rfl, rfl⟩

/-- **Directives are taken up alike.** -/
theorem takeUp_agree (steps : Nat) (hraw : OnlyRaw w.overlay.pending) :
    Agree (takeUp m cursor steps w) (takeUp m' cursor steps w) := by
  induction steps generalizing w with
  | zero => exact ⟨_, rfl, rfl⟩
  | succ steps ih =>
    cases taken : w.overlay.takeActive cursor with
    | none => exact ⟨_, takeUp_none taken _, takeUp_none taken _⟩
    | some p =>
      obtain ⟨d, o⟩ := p
      obtain ⟨hmem, hsublist, -, -⟩ := Overlay.takeActive_sublist taken
      rcases quiet_or_block cursor d with quiet | ⟨hlast, program, ha | ha⟩
      · rw [takeUp_quiet taken quiet, takeUp_quiet taken quiet]
        apply ih
        rw [adopt_pending]
        exact hraw.sublist hsublist
      · obtain rfl := (hraw d hmem).2 program ha
        rw [takeUp_dataBlock taken hlast ha, takeUp_dataBlock taken hlast ha]
        exact (dataBlock_agree h hstop hlo hhi hlast).map _
      · exact absurd ha ((hraw d hmem).1 program)

/-- **A search for blocks ends alike.** -/
theorem activate_agree (searches : Nat) (hraw : OnlyRaw w.overlay.pending) :
    Agree (activate m cursor (searches + 1) w) (activate m' cursor (searches + 1) w) := by
  obtain ⟨⟨stop, u⟩, htake, htake'⟩ := takeUp_agree h hstop hlo hhi w.overlay.pending.length hraw
  rw [activate, activate, htake, htake']
  cases stop with
  | settled => exact ⟨_, rfl, rfl⟩
  | resumeAt next => exact ⟨_, rfl, rfl⟩
  | searched => exact absurd htake (takeUp_ne_searched hraw u)

/-- **Every stop of the walk is alike.** -/
theorem step_agree (hraw : OnlyRaw w.overlay.pending) :
    Agree (w.step m cursor) (w.step m' cursor) := by
  obtain ⟨⟨found, u⟩, hact, hact'⟩ := activate_agree (w := w.expire cursor) h hstop hlo hhi
    ((w.expire cursor).overlay.pending.countP isPattern) hraw
  rw [step, step, hact, hact']
  cases found with
  | some next => exact ⟨_, rfl, rfl⟩
  | none => exact decodeLine_agree h hstop hlo hhi

end Stop

/-- **The whole walk is alike**: it succeeds with the same state and makes the same progress. -/
theorem walkFrom_agree (h : m.image.SameWindow m'.image) (hstop : m.image.stop < 0x10000)
    (steps : Nat) {p : Progress} (hlo : m.image.origin.toNat ≤ cursor)
    (hraw : OnlyRaw w.overlay.pending) :
    walkFrom m steps cursor w p = walkFrom m' steps cursor w p ∧
      ∃ w', (walkFrom m steps cursor w p).2 = .ok w' := by
  induction steps generalizing cursor w p with
  | zero => exact ⟨rfl, w, rfl⟩
  | succ steps ih =>
    rw [walkFrom, walkFrom, ← h.stop_eq, ← h.origin]
    by_cases hhi : cursor < m.image.stop
    · rw [if_pos hhi, if_pos hhi]
      obtain ⟨⟨next, u⟩, hstep, hstep'⟩ := step_agree h hstop hlo hhi hraw
      obtain ⟨hnext, -, hraw', -⟩ := step_advances hraw hlo hhi hstep
      rw [hstep, hstep']
      exact ih (by omega) hraw'
    · rw [if_neg hhi, if_neg hhi]
      exact ⟨rfl, w, rfl⟩

end Walk

/-- **Bytes outside the window do not show.** Where there are no pattern blocks and every data block
dumps raw bytes, images with the same window, which ends below the end of the address space, have the
same listing and make the same progress. -/
theorem disassemble_sameWindow {m m' : Machine} {ds : List Directive} (defaults : Scope)
    (h : m.image.SameWindow m'.image) (hstop : m.image.stop < 0x10000) (hraw : Walk.OnlyRaw ds) :
    disassemble m ds defaults = disassemble m' ds defaults ∧
      ∃ text, (disassemble m ds defaults).2 = .ok text := by
  have hpending : Walk.OnlyRaw
      (Walk.start (baseScope defaults ds) (scopedDirectives ds)).overlay.pending :=
    (Walk.reserved_ofList m (scopedDirectives ds) 0).onlyRaw (hraw.sublist List.filter_sublist)
  obtain ⟨hwalk, w, hw⟩ := Walk.walkFrom_agree h hstop m.image.length
    (p := { total := 2 * m.image.length }) (Nat.le_refl _) hpending
  refine ⟨?_, Labels.listing (listingFormat (baseScope defaults ds)) w.references w.lines.toList,
    ?_⟩
  · simp only [disassemble, Walk.walk, ← h.length, ← h.origin, hwalk]
  · simp only [disassemble, Walk.walk, hw]

/-- An instruction, two bytes and a jump that the end of the window cuts off, alone in their buffer.
-/
def aloneSample : Image :=
  Walk.cutOffSample.image

/-- The same window in a larger buffer, where the bytes of the jump go on behind the window. -/
def embeddedSample : Image where
  data := #[0xAA, 0xBB, 0x00, 0x12, 0x34, 0xC3, 0x00, 0x80]
  offset := 2
  origin := aloneSample.origin
  length := aloneSample.length
  inBuffer := by decide
  inSpace := aloneSample.inSpace

/-- The two bytes are a block, and the jump stays cut off in both buffers. -/
theorem disassemble_sameWindow_sample :
    aloneSample.data ≠ embeddedSample.data ∧
      disassemble (Spectrum.machine aloneSample)
          [⟨0x8001, 0x8002, .dataBlock Preset.rawBytes⟩] {} =
        disassemble (Spectrum.machine embeddedSample)
          [⟨0x8001, 0x8002, .dataBlock Preset.rawBytes⟩] {} ∧
      ∃ text, (disassemble (Spectrum.machine aloneSample)
        [⟨0x8001, 0x8002, .dataBlock Preset.rawBytes⟩] {}).2 = .ok text := by
  have hwindow : aloneSample.SameWindow embeddedSample := ⟨by decide, by decide, by decide⟩
  have hraw : Walk.OnlyRaw [⟨0x8001, 0x8002, .dataBlock Preset.rawBytes⟩] := by
    simp [Walk.OnlyRaw]
  exact ⟨by decide, disassemble_sameWindow {} hwindow (by decide) hraw⟩

end Disassembly
