/-
# Disassemblies without scripts

Where no directive runs a script, a disassembly can fail in one place only: at an instruction that
the end of the window cuts off. What is left of it is dumped as bytes, on one line behind the lines
of the instructions before it (`Recovered`). The dump goes by the address of the line behind it, and
behind the last address of all that is zero again, so it never ends there. Hence a disassembly
succeeds exactly if its window ends below the top of the address space or cuts no instruction off
(`disassemble_recovers`).
-/

import Disassembly.Proofs.Disassemble.Listing
import Disassembly.Proofs.Walk.Placement
import Disassembly.Proofs.Z80.Sweep

namespace Disassembly

namespace Walk

open Script

/-- **The lines of a window without blocks**, from an address on: one for each instruction, and one
with the bytes of an instruction that the end of the window cuts off. -/
inductive Recovered (m : Machine) : Nat → List Line → Prop
  | done : Recovered m m.image.stop []
  | code {address : Nat} {i : Z80.Instruction} {scope : Scope} {line : Line} {lines : List Line}
      (hdecode : Z80.decode (m.image.windowFrom address) (UInt16.ofNat address) scope.numberBase =
        .ok i)
      (hline : line.bare = codeLine i ((m.image.windowFrom address).take i.length) scope address)
      (rest : Recovered m (address + i.length) lines) : Recovered m address (line :: lines)
  | cutOff {address : Nat} {e : Z80.Truncated} {scope : Scope} {line : Line}
      (hdecode : Z80.decode (m.image.windowFrom address) (UInt16.ofNat address) scope.numberBase =
        .error e)
      (hline : line.bare = rawLine scope address (m.image.windowFrom address)) :
      Recovered m address [line]

variable {m : Machine} {w w' : Walk} {cursor : Nat}

/-- The instruction that the window has at the cursor is decoded. -/
theorem decodeLine_of_ok {i : Z80.Instruction}
    (h : Z80.decode (m.image.windowFrom cursor) (UInt16.ofNat cursor) w.scope.numberBase = .ok i) :
    w.decodeLine m cursor = .ok (cursor + i.length,
      w.addCode i ((m.image.windowFrom cursor).take i.length) cursor) := by
  have hnear : Z80.decode (m.image.windowUpTo cursor Z80.longest) (UInt16.ofNat cursor)
      w.scope.numberBase = .ok i := by
    rw [Image.windowUpTo_eq_take, Z80.decode_take_longest, h]
  simp only [decodeLine, hnear, (decode_windowFrom hnear).2]

/-- What the end of the window cuts off is dumped. -/
theorem decodeLine_of_error {e : Z80.Truncated}
    (h : Z80.decode (m.image.windowFrom cursor) (UInt16.ofNat cursor) w.scope.numberBase =
      .error e) :
    w.decodeLine m cursor = w.dataBlock m cursor m.image.last Preset.rawBytes := by
  have hnear : Z80.decode (m.image.windowUpTo cursor Z80.longest) (UInt16.ofNat cursor)
      w.scope.numberBase = .error e := by
    rw [Image.windowUpTo_eq_take, Z80.decode_take_longest, h]
  simp only [decodeLine, hnear]

/-- The block from the cursor to the end of the window has the bytes from there on. -/
theorem blockBytes_last (hlo : m.image.origin.toNat ≤ cursor) (hhi : cursor < m.image.stop) :
    blockStop m m.image.last = m.image.stop ∧
      blockBytes m cursor m.image.last = m.image.windowFrom cursor := by
  have hstop : blockStop m m.image.last = m.image.stop := by
    rw [blockStop, toNat_last]
    omega
  refine ⟨hstop, ?_⟩
  rw [blockBytes, hstop, List.take_of_length_le]
  rw [Image.length_windowFrom hlo (Nat.le_of_lt hhi)]

/-- A window that is not empty ends at the last address of all if it ends with the address space. -/
theorem last_eq_top_iff : m.image.last = 0xFFFF ↔ m.image.stop = 0x10000 := by
  have hspace := m.image.inSpace
  have hlast := toNat_last (m := m)
  unfold Image.stop at hlast ⊢
  rw [← UInt16.toNat_inj, hlast]
  simp only [UInt16.reduceToNat]
  omega

/-- **The rest of a window below the top of the address space is dumped on one line**, if it is no
longer than a line. -/
theorem dataBlock_rest (hlo : m.image.origin.toNat ≤ cursor) (hhi : cursor < m.image.stop)
    (htop : m.image.stop < 0x10000) (hshort : (m.image.windowFrom cursor).length ≤ 8) :
    ∃ w' line, w.dataBlock m cursor m.image.last Preset.rawBytes = .ok (m.image.stop, w') ∧
      w'.lines.toList = w.lines.toList ++ [line] ∧
      line.bare = rawLine w.scope cursor (m.image.windowFrom cursor) := by
  obtain ⟨hstop, hbytes⟩ := blockBytes_last hlo hhi
  have hlength := Image.length_windowFrom hlo (Nat.le_of_lt hhi)
  have hne : m.image.windowFrom cursor ≠ [] := by
    rw [← List.length_pos_iff]
    omega
  have hlast : min m.image.last m.image.last ≠ 0xFFFF := by
    rw [Std.min_self, ne_eq, last_eq_top_iff]
    omega
  have hblock := dataBlock_rawBytes (w := w) hlo hhi (by rw [toNat_last]; omega) hlast
  rw [hstop] at hblock
  have hdone : rawDone m w cursor m.image.last = writeRawLine (w.setting m)
      w.scope.numberBase (w.context m cursor m.image.last) (m.image.windowFrom cursor) := by
    rw [rawDone, writeRaw, hbytes, Routine.Dump.chunks_of_length_le hne hshort, List.foldl_cons,
      List.foldl_nil]
  obtain ⟨hlines, -⟩ := writeRawLine_eq (w.setting m) (c := w.context m cursor m.image.last) rfl hne
    (by omega)
  have hbare := bare_rawLine (w.setting m) (w.context m cursor m.image.last)
    (m.image.windowFrom cursor)
    ((w.context m cursor m.image.last).overlay.takeComments
      (w.context m cursor m.image.last).lineStart.toNat
      ((w.context m cursor m.image.last).lineStart.toNat +
        (m.image.windowFrom cursor).length - 1)).1
  have hstart : (w.context m cursor m.image.last).lineStart.toNat = cursor := toNat_cursor hhi
  refine ⟨_, _, hblock, ?_, hbare.trans ?_⟩
  · rw [hdone, Array.toList_append]
    exact congrArg (w.lines.toList ++ ·) hlines
  · rw [hstart]
    rfl

/-- **The rest of a window up to the last address is never dumped to the end.** -/
theorem dataBlock_rest_error (w : Walk) (cursor : Nat) (htop : ¬ m.image.stop < 0x10000) :
    ∃ e, w.dataBlock m cursor m.image.last Preset.rawBytes = .error e := by
  have hspace := m.image.inSpace
  have hlast : min m.image.last m.image.last = 0xFFFF := by
    rw [Std.min_self, last_eq_top_iff]
    unfold Image.stop at htop ⊢
    omega
  cases h : w.dataBlock m cursor m.image.last Preset.rawBytes with
  | error e => exact ⟨e, rfl⟩
  | ok r => exact absurd h (dataBlock_rawBytes_ne_ok hlast r.1 r.2)

/-- Whether every instruction from an address on is whole, or what is cut off can be dumped. -/
def CanRecover (m : Machine) (address : Nat) : Prop :=
  m.image.stop < 0x10000 ∨ Z80.leftover (m.image.windowFrom address) = []

/-- A walk without blocks from the cursor on adds the lines of the window, or fails at what is cut
off at the top of the address space. -/
def Recovers (m : Machine) (cursor : Nat) (w : Walk) (result : Except Error Walk) : Prop :=
  (CanRecover m cursor → ∃ w' lines, result = .ok w' ∧
      w'.lines.toList = w.lines.toList ++ lines ∧ Recovered m cursor lines) ∧
    (¬ CanRecover m cursor → ∃ e, result = .error e)

/-- At the end of the window there is nothing to recover. -/
theorem recovers_stop (m : Machine) (w : Walk) : Recovers m m.image.stop w (.ok w) := by
  refine ⟨fun _ => ⟨w, [], rfl, (List.append_nil _).symm, .done⟩, fun hnot => absurd ?_ hnot⟩
  have hnil : Z80.decode [] 0 .hex = .error ⟨0, 1, 0⟩ := rfl
  rw [CanRecover, Image.windowFrom_stop, Z80.leftover_of_error hnil]
  exact .inr rfl

/-- Behind an instruction it is the rest of the window that recovers. -/
theorem Recovers.code {i : Z80.Instruction} {result : Except Error Walk}
    (hlo : m.image.origin.toNat ≤ cursor) (hhi : cursor + i.length ≤ m.image.stop)
    (hdecode : Z80.decode (m.image.windowFrom cursor) (UInt16.ofNat cursor) w.scope.numberBase =
      .ok i)
    (h : Recovers m (cursor + i.length)
      (w.addCode i ((m.image.windowFrom cursor).take i.length) cursor) result) :
    Recovers m cursor w result := by
  have hsame : CanRecover m cursor ↔ CanRecover m (cursor + i.length) := by
    rw [CanRecover, CanRecover, Z80.leftover_of_ok hdecode, Image.drop_windowFrom _ hlo hhi]
  refine ⟨fun hcan => ?_, fun hnot => h.2 (hsame.not.1 hnot)⟩
  obtain ⟨w', lines, hw', hlines, hrest⟩ := h.1 (hsame.1 hcan)
  obtain ⟨line, hline, hbare⟩ := addCode_lines w i ((m.image.windowFrom cursor).take i.length) cursor
  refine ⟨w', line :: lines, hw', ?_, .code hdecode hbare hrest⟩
  rw [hlines, hline, List.append_assoc, List.singleton_append]

/-- **What is cut off is dumped, or is the end of the walk** at the top of the address space. -/
theorem recovers_cutOff {e : Z80.Truncated} (hlo : m.image.origin.toNat ≤ cursor)
    (hhi : cursor < m.image.stop)
    (hdecode : Z80.decode (m.image.windowFrom cursor) (UInt16.ofNat cursor) w.scope.numberBase =
      .error e) :
    Recovers m cursor w ((w.dataBlock m cursor m.image.last Preset.rawBytes).map Prod.snd) := by
  have hlength := Image.length_windowFrom hlo (Nat.le_of_lt hhi)
  have hshort := Z80.length_lt_of_decode_error hdecode
  by_cases htop : m.image.stop < 0x10000
  · obtain ⟨w', line, hw', hlines, hbare⟩ := dataBlock_rest (w := w) hlo hhi htop
      (by unfold Z80.longest at hshort; omega)
    rw [hw']
    exact ⟨fun _ => ⟨w', [line], rfl, hlines, .cutOff hdecode hbare⟩,
      fun hnot => absurd (.inl htop) hnot⟩
  · obtain ⟨error, herror⟩ := dataBlock_rest_error w cursor htop
    rw [herror]
    refine ⟨fun hcan => ?_, fun _ => ⟨error, rfl⟩⟩
    rw [CanRecover, Z80.leftover_of_error hdecode, ← List.length_eq_zero_iff] at hcan
    omega

/-- What is recovered depends on the lines before alone. -/
theorem Recovers.congr_left {u : Walk} {result : Except Error Walk} (h : Recovers m cursor u result)
    (hlines : u.lines = w.lines) : Recovers m cursor w result := by
  unfold Recovers at h
  rwa [hlines] at h

/-- **A walk without blocks recovers from what is cut off**, except at the top of the address space.
The induction is on the steps: an instruction leaves the walk to the rest of the window, and what is
cut off ends it. -/
theorem walkFrom_recovers (steps : Nat) (p : Progress) (hblocks : NoBlocks w.overlay.pending)
    (hlo : m.image.origin.toNat ≤ cursor) (hhi : cursor ≤ m.image.stop)
    (hsteps : m.image.stop ≤ cursor + steps) :
    Recovers m cursor w (walkFrom m steps cursor w p).2 := by
  induction steps generalizing cursor w p with
  | zero =>
    obtain rfl : cursor = m.image.stop := by omega
    exact recovers_stop m w
  | succ steps ih =>
    by_cases hcursor : cursor < m.image.stop
    · obtain ⟨u, taken, -, hstep⟩ := step_of_noBlocks m cursor hblocks
      have hpending : NoBlocks u.overlay.pending := hblocks.sublist taken.pending_sublist
      simp only [walkFrom, hcursor, if_true, hstep]
      refine Recovers.congr_left ?_ taken.lines_eq
      cases hdecode : Z80.decode (m.image.windowFrom cursor) (UInt16.ofNat cursor)
          u.scope.numberBase with
      | ok i =>
        obtain ⟨hpos, hfits⟩ := Z80.decode_length hdecode
        rw [Image.length_windowFrom hlo hhi] at hfits
        rw [decodeLine_of_ok hdecode]
        refine Recovers.code hlo (by omega) hdecode (ih _ ?_ (by omega) (by omega) (by omega))
        exact hpending.sublist (Overlay.takeComments_sublist u.overlay cursor _)
      | error e =>
        have hrecovers := recovers_cutOff hlo hcursor hdecode
        rw [decodeLine_of_error hdecode]
        cases hblock : u.dataBlock m cursor m.image.last Preset.rawBytes with
        | error e =>
          rw [hblock] at hrecovers
          exact hrecovers
        | ok r =>
          obtain ⟨next, w'⟩ := r
          obtain rfl := eq_stop_of_dataBlock_last hlo hcursor hblock
          rw [hblock] at hrecovers
          -- Behind the end of the window no step is taken, however many are left.
          cases steps with
          | zero => exact hrecovers
          | succ steps =>
            simp only [walkFrom, Nat.lt_irrefl, if_false]
            exact hrecovers
    · obtain rfl : cursor = m.image.stop := by omega
      simp only [walkFrom, Nat.lt_irrefl, if_false]
      exact recovers_stop m w

end Walk

open Walk

/-- **What is cut off is recovered, except at the top of the address space.** Without blocks a
disassembly succeeds exactly if its window ends below the top of the address space or falls into
whole instructions. Then it lists one line for each instruction, and one with the bytes of an
instruction that the end of the window cuts off. -/
theorem disassemble_recovers (m : Machine) (ds : List Directive) (defaults : Scope)
    (hds : NoBlocks ds) :
    ((∃ text, (disassemble m ds defaults).2 = .ok text) ↔ m.image.stop < 0x10000 ∨
        Z80.leftover (m.image.windowFrom m.image.origin.toNat) = []) ∧
      ∀ text, (disassemble m ds defaults).2 = .ok text → ∃ w, walkOf m ds defaults = .ok w ∧
        text = Labels.listing (listingFormat (baseScope defaults ds)) w.references
          w.lines.toList ∧ Recovered m m.image.origin.toNat w.lines.toList := by
  have hstop : m.image.stop = m.image.origin.toNat + m.image.length := rfl
  have hpending : NoBlocks (start (baseScope defaults ds) (scopedDirectives ds)).overlay.pending := by
    change NoBlocks (Overlay.ofList (scopedDirectives ds)).pending
    rw [Overlay.pending_ofList]
    exact fun d hd => hds d (List.mem_filter.1 (List.mem_mergeSort.1 hd)).1
  have hwalk : Recovers m m.image.origin.toNat
      (start (baseScope defaults ds) (scopedDirectives ds)) (walkOf m ds defaults) :=
    walkFrom_recovers m.image.length _ hpending (Nat.le_refl _) (by omega) (by omega)
  rw [disassemble_snd]
  constructor
  · constructor
    · rintro ⟨text, htext⟩
      obtain ⟨w, hw, -⟩ := exists_ok_of_map htext
      by_contra hnot
      obtain ⟨e, he⟩ := hwalk.2 hnot
      rw [hw] at he
      exact absurd he (by simp)
    · intro hcan
      obtain ⟨w, lines, hw, -⟩ := hwalk.1 hcan
      rw [hw]
      exact ⟨_, rfl⟩
  · intro text htext
    obtain ⟨w, hw, rfl⟩ := exists_ok_of_map htext
    refine ⟨w, hw, rfl, ?_⟩
    by_cases hcan : CanRecover m m.image.origin.toNat
    · obtain ⟨w', lines, hw', hlines, hrecovered⟩ := hwalk.1 hcan
      rw [hw] at hw'
      obtain rfl := Except.ok.inj hw'
      obtain rfl : w.lines.toList = lines := hlines
      exact hrecovered
    · obtain ⟨e, he⟩ := hwalk.2 hcan
      rw [hw] at he
      exact absurd he (by simp)

/-- The last of four bytes is the first of a jump, and it is dumped behind three
instructions, in the base of its scope. -/
theorem disassemble_recovers_cutOffSample :
    let ds : List Directive := [⟨0x8002, 0x8003, .format (.numberBase .decimal)⟩]
    let text := "8000  NOP\n8001  LD (DE),A\n8002  INC (HL)\n8003  DEFB  195\n"
    NoBlocks ds ∧ (disassemble cutOffSample ds {}).2.toOption = some text ∧
      ∃ w, walkOf cutOffSample ds {} = .ok w ∧
        text = Labels.listing PlainText.format w.references w.lines.toList ∧
        Recovered cutOffSample 0x8000 w.lines.toList := by
  intro ds text
  have hds : NoBlocks ds := List.forall_mem_singleton.2 rfl
  obtain ⟨hok, hlines⟩ := disassemble_recovers cutOffSample ds {} hds
  obtain ⟨text', htext'⟩ := hok.2 (.inl (by decide))
  have hlisting : (disassemble cutOffSample ds {}).2.toOption = some text := by
    decide +kernel
  refine ⟨hds, hlisting, ?_⟩
  rw [htext'] at hlisting
  obtain rfl : text = text' := (Option.some.inj hlisting).symm
  exact hlines text htext'

/-- **A jump that the top of the address space cuts off is not recovered.** The one byte of it is
dumped, and then the dump goes on at address zero, which the window does not have. -/
theorem disassemble_cutOff_top :
    let m : Machine := ⟨⟨#[0xC3], 0, 0xFFFF, 1, by decide, by decide⟩, Spectrum.charset,
      Spectrum.floats⟩
    NoBlocks [] ∧ (disassemble m [] {}).2.mapError Script.Error.message =
      .error ("read outside the image at 0000 at line 1, column 1 (address 0000) near " ++
        "\"%PByteDump()\"") := by
  intro m
  exact ⟨List.forall_mem_nil _, by decide +kernel⟩

end Disassembly
