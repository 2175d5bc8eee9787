/-
# The lines of a walk tile the window

Where every byte is either decoded or dumped as it is, no byte is lost, repeated or misplaced: the
bytes of the window fall into pieces, one for each line and in the order of the lines, and each line
shows its piece at its address (`walk_tiles`). A walk that succeeds has dumped no block up to the
last address, because such a dump never ends.
-/

import Disassembly.Proofs.Walk.RawBlock
import Disassembly.Proofs.Walk.Steps
import Disassembly.Proofs.Z80.Extension

namespace Disassembly
namespace Walk

open Script

/-- Directives under which every byte is decoded or dumped as it is: there are no pattern blocks,
and every data block runs the program for raw bytes. -/
def OnlyRaw (ds : List Directive) : Prop :=
  ∀ d ∈ ds, (∀ program, d.annotation ≠ .patternBlock program) ∧
    ∀ program, d.annotation = .dataBlock program → program = Preset.rawBytes

/-- A line shows the bytes at an address: as the instruction that the window has there, or as data.
-/
structure Shows (m : Machine) (address : Nat) (bytes : List UInt8) (line : Line) : Prop where
  bytes_ne_nil : bytes ≠ []
  marker : ∃ marker, line.marker = some marker ∧ marker.address.toNat = address
  content :
    (∃ scope i, Z80.decode (m.image.windowFrom address) (UInt16.ofNat address) scope.numberBase =
        .ok i ∧ i.length = bytes.length ∧ line.bare = codeLine i bytes scope address) ∨
      ∃ scope, line.bare = rawLine scope address bytes

/-- Lines show pieces of bytes, one each, that lie one behind the other from an address on. -/
inductive Tiles (m : Machine) : Nat → List (List UInt8) → List Line → Prop
  | nil (address : Nat) : Tiles m address [] []
  | cons {address : Nat} {bytes : List UInt8} {pieces : List (List UInt8)} {line : Line}
      {lines : List Line} (first : Shows m address bytes line)
      (rest : Tiles m (address + bytes.length) pieces lines) :
      Tiles m address (bytes :: pieces) (line :: lines)

variable {m : Machine} {w w' : Walk} {cursor next : Nat}

/-- Tilings that meet make one. -/
theorem Tiles.append {address : Nat} {pieces pieces' : List (List UInt8)} {lines lines' : List Line}
    (h : Tiles m address pieces lines)
    (h' : Tiles m (address + pieces.flatten.length) pieces' lines') :
    Tiles m address (pieces ++ pieces') (lines ++ lines') := by
  induction h with
  | nil address => simpa using h'
  | cons first rest ih =>
    refine .cons first (ih ?_)
    rwa [List.flatten_cons, List.length_append, ← Nat.add_assoc] at h'

/-- A line of raw bytes, without its comments. -/
theorem bare_rawLine (setting : Setting) (c : Context) (bytes : List UInt8)
    (comments : List Overlay.Comment) :
    (Context.finishedLine setting ⟨c.marker setting,
      (rawLayout setting setting.scope.numberBase).lineText setting
        (bytes.map fun b => Numeral.operand b.toNat .byte setting.scope.numberBase false)⟩
      comments).bare = rawLine setting.scope c.lineStart.toNat bytes := by
  have htext : (rawLayout setting setting.scope.numberBase).lineText setting
      (bytes.map fun b => Numeral.operand b.toNat .byte setting.scope.numberBase false) =
      "DEFB" ++ setting.scope.separator ++ String.intercalate ","
        (bytes.map fun b => Numeral.operand b.toNat .byte setting.scope.numberBase false) := by
    rw [Routine.Dump.lineText, ← itemsText_zero]
    rfl
  rw [Context.bare_finishedLine, htext, rawLine, UInt16.ofNat_toNat]
  rfl

/-- A line of raw bytes shows them at the address where it starts. -/
theorem writeRawLine_lines (m : Machine) (setting : Setting) {c : Context} {bytes : List UInt8}
    (hspacing : c.format.spacing = 0) (hne : bytes ≠ []) :
    ∃ line, (writeRawLine setting setting.scope.numberBase c bytes).lines.toList =
      c.lines.toList ++ [line] ∧ Shows m c.lineStart.toNat bytes line := by
  have hlines (record : Line) :
      (c.lines.push record ++ Array.replicate c.format.spacing Line.blank).toList =
        c.lines.toList ++ [record] := by
    rw [hspacing]
    simp
  refine ⟨_, hlines _, hne, ?_, .inr ⟨_, bare_rawLine setting c bytes _⟩⟩
  refine ⟨c.marker setting, ?_, rfl⟩
  rw [← Line.bare_marker]
  exact congrArg Line.marker (Context.bare_finishedLine setting _ _)

/-- The next line starts behind the bytes of a line. -/
theorem toNat_lineStart_writeRawLine (setting : Setting) (base : Base) {c : Context}
    {bytes : List UInt8} (htop : c.lineStart.toNat + bytes.length < 0x10000) :
    (writeRawLine setting base c bytes).lineStart.toNat = c.lineStart.toNat + bytes.length := by
  have hsize : (rawLayout setting base).size = 1 := rfl
  rw [writeRawLine, Routine.Dump.toNat_lineStart_writeLine] <;>
    rw [hsize, List.length_map, Nat.one_mul]
  exact htop

/-- **Lines of raw bytes tile the bytes they are written from.** -/
theorem tiles_foldl_writeRawLine (m : Machine) (setting : Setting) (pieces : List (List UInt8))
    {c : Context} (hspacing : c.format.spacing = 0) (hne : ∀ bytes ∈ pieces, bytes ≠ [])
    (htop : c.lineStart.toNat + pieces.flatten.length < 0x10000) :
    ∃ lines, (pieces.foldl (writeRawLine setting setting.scope.numberBase) c).lines.toList =
      c.lines.toList ++ lines ∧ Tiles m c.lineStart.toNat pieces lines := by
  induction pieces generalizing c with
  | nil => exact ⟨[], (List.append_nil _).symm, .nil _⟩
  | cons bytes pieces ih =>
    rw [List.flatten_cons, List.length_append] at htop
    obtain ⟨line, hline, hshows⟩ := writeRawLine_lines m setting hspacing
      (hne bytes List.mem_cons_self)
    have hstart : (writeRawLine setting setting.scope.numberBase c bytes).lineStart.toNat =
        c.lineStart.toNat + bytes.length :=
      toNat_lineStart_writeRawLine setting setting.scope.numberBase (by omega)
    obtain ⟨lines, hlines, htiles⟩ :=
      ih (c := writeRawLine setting setting.scope.numberBase c bytes) hspacing
        (fun bs hbs => hne bs (List.mem_cons_of_mem _ hbs)) (by omega)
    rw [hstart] at htiles
    refine ⟨line :: lines, ?_, .cons hshows htiles⟩
    rw [List.foldl_cons, hlines, hline, List.append_assoc, List.singleton_append]

/-- Writing raw bytes only takes comments from what is pending. -/
theorem pending_foldl_writeRawLine {setting : Setting} {base : Base} (pieces : List (List UInt8))
    (c : Context) :
    (pieces.foldl (writeRawLine setting base) c).overlay.pending.Sublist c.overlay.pending := by
  induction pieces generalizing c with
  | nil => exact List.Sublist.refl _
  | cons bytes pieces ih =>
    exact (ih (writeRawLine setting base c bytes)).trans
      (Overlay.takeComments_sublist c.overlay c.lineStart.toNat _)

/-- **What a stop of the walk adds.** The walk moves on inside the window, its new lines tile the
bytes it has passed, and nothing but raw blocks is left to come. -/
def Advances (m : Machine) (cursor : Nat) (w : Walk) (next : Nat) (w' : Walk) : Prop :=
  cursor < next ∧ next ≤ m.image.stop ∧ OnlyRaw w'.overlay.pending ∧
    ∃ pieces lines, w'.lines.toList = w.lines.toList ++ lines ∧ Tiles m cursor pieces lines ∧
      pieces.flatten = (m.image.windowFrom cursor).take (next - cursor)

theorem OnlyRaw.sublist {ds ds' : List Directive} (h : OnlyRaw ds) (hs : ds'.Sublist ds) :
    OnlyRaw ds' :=
  fun d hd => h d (hs.subset hd)

/-- **Rendering raw bytes advances the walk.** -/
theorem dataBlock_advances {last : UInt16} (hraw : OnlyRaw w.overlay.pending)
    (hlo : m.image.origin.toNat ≤ cursor) (hhi : cursor < m.image.stop)
    (hlast : cursor ≤ last.toNat)
    (h : w.dataBlock m cursor last Preset.rawBytes = .ok (next, w')) :
    Advances m cursor w next w' := by
  by_cases htop : min last m.image.last = 0xFFFF
  · exact absurd h (dataBlock_rawBytes_ne_ok htop next w')
  · rw [dataBlock_rawBytes hlo hhi hlast htop] at h
    obtain ⟨rfl, rfl⟩ := Prod.mk.inj (Except.ok.inj h)
    have hlen := length_blockBytes last hlo hhi
    have hstop : cursor < blockStop m last ∧ blockStop m last ≤ m.image.stop := by
      unfold blockStop; omega
    have hend := blockStop_lt htop
    have hflat := Routine.Dump.flatten_chunks 8 (blockBytes m cursor last)
    obtain ⟨lines, hlines, htiles⟩ := tiles_foldl_writeRawLine m (w.setting m)
      (Routine.Dump.chunks 8 (blockBytes m cursor last)) (c := w.context m cursor last) rfl
      (fun _ => Routine.Dump.ne_nil_of_mem_chunks)
      (by rw [hflat, hlen]
          change (UInt16.ofNat cursor).toNat + _ < _
          rw [toNat_cursor hhi]
          omega)
    refine ⟨hstop.1, hstop.2, hraw.sublist (pending_foldl_writeRawLine _ _),
      Routine.Dump.chunks 8 (blockBytes m cursor last), lines, ?_, ?_, hflat⟩
    · rw [Array.toList_append]
      exact congrArg (w.lines.toList ++ ·) hlines
    · change Tiles m (UInt16.ofNat cursor).toNat _ _ at htiles
      rwa [toNat_cursor hhi] at htiles

/-- **An instruction that is not cut off advances the walk by its bytes.** -/
theorem addCode_advances {i : Z80.Instruction} (hraw : OnlyRaw w.overlay.pending)
    (hlo : m.image.origin.toNat ≤ cursor) (hhi : cursor < m.image.stop)
    (h : Z80.decode (m.image.windowFrom cursor) (UInt16.ofNat cursor) w.scope.numberBase = .ok i) :
    Advances m cursor w (cursor + i.length)
      (w.addCode i ((m.image.windowFrom cursor).take i.length) cursor) := by
  obtain ⟨hpos, hfits⟩ := Z80.decode_length h
  have hlen := Image.length_windowFrom hlo (Nat.le_of_lt hhi)
  have htake : ((m.image.windowFrom cursor).take i.length).length = i.length :=
    List.length_take_of_le hfits
  have hshows (comments : List Overlay.Comment) : Shows m cursor
      ((m.image.windowFrom cursor).take i.length)
      (if w.scope.comments then
        (codeLine i ((m.image.windowFrom cursor).take i.length) w.scope cursor).attachAll comments
      else codeLine i ((m.image.windowFrom cursor).take i.length) w.scope cursor) := by
    have hbare := bare_codeLine i ((m.image.windowFrom cursor).take i.length) w.scope cursor
      comments
    refine ⟨fun hnil => ?_, ?_, .inl ⟨w.scope, i, h, htake.symm, hbare⟩⟩
    · rw [hnil, List.length_nil] at htake
      omega
    · rw [← Line.bare_marker, hbare]
      exact ⟨_, rfl, toNat_cursor hhi⟩
  refine ⟨by omega, by omega, hraw.sublist (Overlay.takeComments_sublist w.overlay cursor _),
    [(m.image.windowFrom cursor).take i.length], [_], Array.toList_push,
    .cons (hshows _) (.nil _), ?_⟩
  rw [List.flatten_singleton, Nat.add_sub_cancel_left]

/-- An instruction that is decoded from the bytes it can have at most is the one of the window. -/
theorem decode_windowFrom {address : UInt16} {base : Base} {i : Z80.Instruction}
    (h : Z80.decode (m.image.windowUpTo cursor Z80.longest) address base = .ok i) :
    Z80.decode (m.image.windowFrom cursor) address base = .ok i ∧
      (m.image.windowUpTo cursor Z80.longest).take i.length =
        (m.image.windowFrom cursor).take i.length := by
  rw [Image.windowUpTo_eq_take] at h ⊢
  have hfits := (Z80.decode_length h).2
  rw [List.length_take] at hfits
  have hwhole := Z80.decode_append ((m.image.windowFrom cursor).drop Z80.longest) h
  rw [List.take_append_drop] at hwhole
  refine ⟨hwhole, ?_⟩
  rw [List.take_take, Nat.min_eq_left (by omega)]

/-- **Decoding an instruction, or dumping what is cut off, advances the walk.** -/
theorem decodeLine_advances (hraw : OnlyRaw w.overlay.pending)
    (hlo : m.image.origin.toNat ≤ cursor) (hhi : cursor < m.image.stop)
    (h : w.decodeLine m cursor = .ok (next, w')) : Advances m cursor w next w' := by
  rw [decodeLine] at h
  cases hd : Z80.decode (m.image.windowUpTo cursor Z80.longest) (UInt16.ofNat cursor)
      w.scope.numberBase with
  | error e =>
    simp only [hd] at h
    exact dataBlock_advances hraw hlo hhi (by rw [toNat_last]; omega) h
  | ok i =>
    simp only [hd] at h
    obtain ⟨rfl, rfl⟩ := Prod.mk.inj (Except.ok.inj h)
    obtain ⟨hwhole, hbytes⟩ := decode_windowFrom hd
    rw [hbytes]
    exact addCode_advances hraw hlo hhi hwhole

/-- Without pattern blocks, taking up directives never ends with one. -/
theorem takeUp_ne_searched (hraw : OnlyRaw w.overlay.pending) (u : Walk) :
    takeUp m cursor w.overlay.pending.length w ≠ .ok (.searched, u) := by
  intro h
  obtain ⟨v, d, o, program, hv, htaken, -, hd, -⟩ := takeUp_cases _ w (Nat.le_refl _) h
  have hmem := (Overlay.takeActive_sublist htaken).1
  exact (hraw.sublist hv.pending_sublist d hmem).1 program hd

/-- Without pattern blocks there is one search, and it ends with a data block or with none. -/
theorem activate_advances (hraw : OnlyRaw w.overlay.pending)
    (hlo : m.image.origin.toNat ≤ cursor) (hhi : cursor < m.image.stop) {searches : Nat}
    {found : Option Nat} (h : activate m cursor (searches + 1) w = .ok (found, w')) :
    match found with
    | some next => Advances m cursor w next w'
    | none => w'.lines = w.lines ∧ OnlyRaw w'.overlay.pending := by
  rw [activate] at h
  cases ht : takeUp m cursor w.overlay.pending.length w with
  | error e => simp [ht] at h
  | ok r =>
    have hcases := takeUp_cases _ w (Nat.le_refl _) ht
    obtain ⟨stop, u⟩ := r
    cases stop with
    | settled =>
      simp only [ht] at h
      obtain ⟨rfl, rfl⟩ := Prod.mk.inj (Except.ok.inj h)
      exact ⟨hcases.1.lines_eq, hraw.sublist hcases.1.pending_sublist⟩
    | resumeAt next =>
      simp only [ht] at h
      obtain ⟨rfl, rfl⟩ := Prod.mk.inj (Except.ok.inj h)
      obtain ⟨v, d, o, program, hv, htaken, hlast, hd, hrun⟩ := hcases
      obtain ⟨hmem, hsub, -, -⟩ := Overlay.takeActive_sublist htaken
      have hvraw := hraw.sublist hv.pending_sublist
      obtain rfl := (hvraw d hmem).2 program hd
      have hadv := dataBlock_advances (w := { v with overlay := o }) (hvraw.sublist hsub) hlo hhi
        hlast hrun
      unfold Advances at hadv ⊢
      rw [← hv.lines_eq]
      exact hadv
    | searched => exact absurd ht (takeUp_ne_searched hraw u)

/-- **Every stop of the walk advances it.** -/
theorem step_advances (hraw : OnlyRaw w.overlay.pending)
    (hlo : m.image.origin.toNat ≤ cursor) (hhi : cursor < m.image.stop)
    (h : w.step m cursor = .ok (next, w')) : Advances m cursor w next w' := by
  rw [step] at h
  cases ha : activate m cursor ((w.expire cursor).overlay.pending.countP isPattern + 1)
      (w.expire cursor) with
  | error e => simp [ha] at h
  | ok r =>
    obtain ⟨found, u⟩ := r
    have hcases := activate_advances (w := w.expire cursor) hraw hlo hhi ha
    cases found with
    | some n =>
      simp only [ha] at h
      obtain ⟨rfl, rfl⟩ := Prod.mk.inj (Except.ok.inj h)
      exact hcases
    | none =>
      simp only [ha] at h
      have hadv := decodeLine_advances hcases.2 hlo hhi h
      unfold Advances at hadv ⊢
      rw [hcases.1] at hadv
      exact hadv

/-- A window with an instruction, two bytes and an instruction that is cut off. -/
def cutOffSample : Machine :=
  ⟨⟨#[0x00, 0x12, 0x34, 0xC3], 0, 0x8000, 4, by decide, by decide⟩, Spectrum.charset,
    Spectrum.floats⟩

end Walk
end Disassembly
