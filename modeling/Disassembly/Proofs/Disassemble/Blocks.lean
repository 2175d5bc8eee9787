/-
# Instructions and data blocks

A data block of raw bytes is rendered from where the walk stands when it takes it up to the end of
the block. As long as a block has not ended it stays pending (`Reserved`), so the walk never decodes
an instruction at an address of the block: it would render the block instead. But the walk looks for
blocks between instructions alone, and an instruction that starts before a block may run into it.
Those are all the instructions that meet a block (`disassemble_code_meets_block`).
-/

import Disassembly.Proofs.Disassemble.Listing
import Disassembly.Proofs.Script.Frame
import Disassembly.Proofs.Walk.Record
import Disassembly.Proofs.Walk.Tiling

namespace Disassembly
namespace Walk

open Script

/-- Whether the directive is a data block. -/
def isData (d : Directive) : Bool :=
  match d.annotation with
  | .dataBlock _ => true
  | _ => false

/-- Whether the range of a directive holds one of the `length` addresses from an address on. -/
def Meets (address length : Nat) (d : Directive) : Prop :=
  ∃ a, address ≤ a ∧ a < address + length ∧ d.contains a = true

/-- What meets a range but does not start in it starts before it and runs into it. -/
theorem meets_iff_of_not_contains {address length : Nat} {d : Directive}
    (h : d.contains address = false) :
    Meets address length d ↔ address < d.first.toNat ∧ d.first.toNat < address + length ∧
      d.first ≤ d.last := by
  have hout : ¬ (d.first.toNat ≤ address ∧ address ≤ d.last.toNat) := by
    rw [← Directive.contains_iff, h]
    decide
  rw [UInt16.le_iff_toNat_le]
  constructor
  · rintro ⟨a, hlo, hhi, hcontains⟩
    obtain ⟨hfirst, hlast⟩ := Directive.contains_iff.1 hcontains
    omega
  · rintro ⟨hbefore, hinto, hrange⟩
    exact ⟨d.first.toNat, by omega, hinto, Directive.contains_iff.2 ⟨Nat.le_refl _, hrange⟩⟩

theorem isBlock_of_isData {d : Directive} (h : isData d = true) : isBlock d = true := by
  unfold isData at h
  unfold isBlock
  cases ha : d.annotation <;> simp [ha] at h ⊢

theorem isPlainComment_of_isData {d : Directive} (h : isData d = true) :
    d.isPlainComment = false := by
  unfold isData at h
  unfold Directive.isPlainComment
  cases ha : d.annotation <;> simp [ha] at h ⊢

/-- The overlay of a walk that has come to the cursor: what is pending is left of the directives, and
the data blocks that have not ended are. -/
structure Reserved (m : Machine) (ds : List Directive) (cursor : Nat) (o : Overlay) : Prop where
  pending_sublist : o.pending.Sublist (Directive.sort ds)
  blocks : ∀ d ∈ ds, isData d = true → cursor ≤ d.last.toNat → cursor < m.image.stop →
    d ∈ o.pending

variable {m : Machine} {ds : List Directive} {cursor next : Nat} {w u w' : Walk} {o o' : Overlay}
  {d e : Directive} {events : List Event}

/-- At first all data blocks are pending. -/
theorem reserved_ofList (m : Machine) (ds : List Directive) (cursor : Nat) :
    Reserved m ds cursor (.ofList ds) := by
  have hpending := Overlay.pending_ofList ds
  exact ⟨hpending ▸ List.Sublist.refl _, fun d hd _ _ _ => hpending ▸ List.mem_mergeSort.2 hd⟩

/-- Only raw blocks are pending if the directives have no others. -/
theorem Reserved.onlyRaw (h : Reserved m ds cursor o) (hraw : OnlyRaw ds) : OnlyRaw o.pending :=
  fun d hd => hraw d (List.mem_mergeSort.1 (h.pending_sublist.subset hd))

/-- What is behind the cursor stays pending as long as only plain comments are taken. -/
theorem Reserved.of_filter (h : Reserved m ds cursor o) (hnext : cursor ≤ next)
    (hsublist : o'.pending.Sublist o.pending)
    (hfilter : (o.pending.filter fun d => !d.isPlainComment).Sublist
      (o'.pending.filter fun d => !d.isPlainComment)) : Reserved m ds next o' := by
  refine ⟨hsublist.trans h.pending_sublist, fun d hd hdata hlast hstop => ?_⟩
  have hmem := h.blocks d hd hdata (by omega) (by omega)
  have hother := isPlainComment_of_isData hdata
  exact (List.mem_filter.1 (hfilter.subset (List.mem_filter.2 ⟨hmem, by rw [hother]; rfl⟩))).1

/-- A directive that is taken is no loss if no data block is equal to it that lies ahead. -/
theorem Reserved.takeActive (h : Reserved m ds cursor o) (hnext : cursor ≤ next)
    (taken : o.takeActive cursor = some (d, o'))
    (hd : isData d = true → next ≤ d.last.toNat → m.image.stop ≤ next) :
    Reserved m ds next o' := by
  obtain ⟨-, hsublist, -, -⟩ := Overlay.takeActive_sublist taken
  obtain ⟨skipped, tail, hpending, hleft, -⟩ := Overlay.takeActive_split taken
  refine ⟨hsublist.trans h.pending_sublist, fun e he hdata hlast hstop => ?_⟩
  have hmem := h.blocks e he hdata (by omega) (by omega)
  have hne : e ≠ d := by
    rintro rfl
    have := hd hdata hlast
    omega
  rw [hpending, List.mem_append, List.mem_cons] at hmem
  rw [hleft]
  rcases hmem with hskipped | rfl | htail
  · exact List.mem_append_left _ hskipped
  · exact absurd rfl hne
  · exact List.mem_append_right _ htail

/-- Taking up directives that run no script leaves the data blocks pending. -/
theorem TakesUp.reserved (h : TakesUp cursor w w') (hres : Reserved m ds cursor w.overlay) :
    Reserved m ds cursor w'.overlay := by
  induction h with
  | refl => exact hres
  | @head w w' d o taken quiet rest ih =>
    refine ih ?_
    have htaken : Reserved m ds cursor o := by
      refine hres.takeActive (Nat.le_refl _) taken fun hdata hlast => ?_
      rcases quiet with hended | hother
      · omega
      · rw [isBlock_of_isData hdata] at hother
        exact absurd hother (by decide)
    exact htaken.of_filter (Nat.le_refl _) (by rw [adopt_pending]) (by rw [adopt_pending])

/-- **Where no directive is left to take up, the cursor is at no data block.** -/
theorem Reserved.not_contains (h : Reserved m ds cursor o) (hhi : cursor < m.image.stop)
    (hnone : o.takeActive cursor = none) (hd : d ∈ ds) (hdata : isData d = true) :
    d.contains cursor = false := by
  by_contra hcontains
  obtain ⟨hfirst, hlast⟩ := Directive.contains_iff.1 (Bool.of_not_eq_false hcontains)
  have hplain := Overlay.isPlainComment_of_takeActive_eq_none hnone
    (h.blocks d hd hdata hlast hhi) hfirst
  rw [isPlainComment_of_isData hdata] at hplain
  exact absurd hplain (by decide)

/-- **Rendering a block leaves the other blocks pending**, whatever its script does. -/
theorem filter_dataBlock {last : UInt16} {program : String}
    (h : w.dataBlock m cursor last program = .ok (next, w')) :
    (w.overlay.pending.filter fun d => !d.isPlainComment).Sublist
      (w'.overlay.pending.filter fun d => !d.isPlainComment) := by
  have hframe := (scripted_run (w.setting m) program).frame (w.context m cursor last)
  rw [Walk.dataBlock] at h
  cases hrun : run (w.setting m) program (w.context m cursor last) with
  | error e c => exact absurd h (by simp [hrun])
  | ok outcome c =>
    simp only [hrun] at h
    obtain ⟨-, rfl⟩ := Prod.mk.inj (Except.ok.inj h)
    rw [hrun] at hframe
    exact (hframe.trans (.finish (w.setting m) c)).pending

/-- **Rendering raw bytes moves behind the block**, or to the end of the window. -/
theorem dataBlock_reserved (ds : List Directive) {last : UInt16}
    (hlo : m.image.origin.toNat ≤ cursor) (hhi : cursor < m.image.stop)
    (hlast : cursor ≤ last.toNat)
    (h : w.dataBlock m cursor last Preset.rawBytes = .ok (next, w')) :
    cursor ≤ next ∧ (next ≤ last.toNat → m.image.stop ≤ next) ∧
      (Reserved m ds next w.overlay → Reserved m ds next w'.overlay) := by
  have hfilter := filter_dataBlock h
  obtain ⟨rfl, rfl⟩ := dataBlock_rawBytes_eq_ok hlo hhi hlast h
  unfold blockStop
  refine ⟨by omega, fun hnext => by omega, fun hres => ?_⟩
  exact hres.of_filter (Nat.le_refl _) (pending_foldl_writeRawLine _ _) hfilter

/-- Whether something that happened is no instruction at an address of a data block. -/
def Event.Avoids (ds : List Directive) : Event → Prop
  | code address _ _ _ => ∀ d ∈ ds, isData d = true → d.contains address = false
  | script _ _ => True

/-- **No stop decodes an instruction at an address of a data block**, and the blocks that lie ahead
stay pending. -/
theorem Stopped.avoids (h : Stopped m cursor w events next w') (hraw : OnlyRaw ds)
    (hlo : m.image.origin.toNat ≤ cursor) (hhi : cursor < m.image.stop)
    (hres : Reserved m ds cursor w.overlay) :
    (∀ e ∈ events, e.Avoids ds) ∧ Reserved m ds next w'.overlay := by
  cases h with
  | @code _ u i taken hnone hdecode =>
    have hu := taken.reserved hres
    refine ⟨List.forall_mem_singleton.2 fun d hd hdata => hu.not_contains hhi hnone hd hdata, ?_⟩
    have hfilter := Overlay.filter_takeComments u.overlay cursor (cursor + i.length - 1)
    exact hu.of_filter (by omega) (Overlay.takeComments_sublist u.overlay cursor _)
      (hfilter ▸ List.Sublist.refl _)
  | cutOff taken hnone hdecode renders =>
    obtain ⟨hnext, -, hrest⟩ := dataBlock_reserved ds hlo hhi
      (by rw [toNat_last]; omega) renders.1
    refine ⟨List.forall_mem_singleton.2 trivial, hrest ?_⟩
    exact (taken.reserved hres).of_filter hnext (List.Sublist.refl _) (List.Sublist.refl _)
  | @block _ u _ d o program _ _ taken hsome hlast hprogram renders =>
    have hu := taken.reserved hres
    obtain rfl := (hu.onlyRaw hraw d (Overlay.takeActive_sublist hsome).1).2 program hprogram
    obtain ⟨hnext, hend, hrest⟩ := dataBlock_reserved (w := { u with overlay := o }) ds hlo hhi
      hlast renders.1
    exact ⟨List.forall_mem_singleton.2 trivial,
      hrest (hu.takeActive hnext hsome fun _ => hend)⟩
  | @search _ u _ _ d o program _ _ _ taken hsome hlast hprogram scans onward =>
    have hu := taken.reserved hres
    have hmem := (Overlay.takeActive_sublist hsome).1
    exact absurd hprogram ((hu.onlyRaw hraw d hmem).1 program)

/-- **No walk decodes an instruction at an address of a data block.** -/
theorem Walked.avoids (h : Walked m cursor w events w') (hraw : OnlyRaw ds)
    (hlo : m.image.origin.toNat ≤ cursor) (hres : Reserved m ds cursor w.overlay) :
    ∀ e ∈ events, e.Avoids ds := by
  induction h with
  | finish w hstop => exact List.forall_mem_nil _
  | @stop cursor next w u w' events events' hcursor stopped onward ih =>
    have hexpired : Reserved m ds cursor (w.expire cursor).overlay :=
      ⟨hres.pending_sublist, hres.blocks⟩
    obtain ⟨hevents, hres'⟩ := stopped.avoids hraw hlo hcursor hexpired
    have hnext := stopped.lt
    exact List.forall_mem_append.2 ⟨hevents, ih (by omega) hres'⟩

end Walk

open Walk

/-- **An instruction meets a data block of raw bytes only if it starts before the block and runs into
it.** A disassembly that succeeds has a history and lists the lines that the walk left, of which the
code lines are those of the instructions in the history. No instruction starts at an address of a
data block, so that the bytes of one share an address with a block exactly if the first address of
the block is inside the instruction, behind its first byte. -/
theorem disassemble_code_meets_block (m : Machine) (ds : List Directive) (defaults : Scope)
    (hraw : OnlyRaw ds) {text : String} (h : (disassemble m ds defaults).2 = .ok text) :
    ∃ w events, Walked m m.image.origin.toNat
        (.start (baseScope defaults ds) (scopedDirectives ds)) events w ∧
      text = Labels.listing (listingFormat (baseScope defaults ds)) w.references w.lines.toList ∧
      (w.lines.toList.filter Line.isCode).map Line.bare = events.filterMap Event.line? ∧
      ∀ address i bytes scope, .code address i bytes scope ∈ events →
        ∀ d ∈ ds, isData d = true →
          (Meets address i.length d ↔ address < d.first.toNat ∧
            d.first.toNat < address + i.length ∧ d.first ≤ d.last) := by
  rw [disassemble_snd] at h
  obtain ⟨w, hwalk, rfl⟩ := exists_ok_of_map h
  obtain ⟨events, hwalked⟩ := walked_of_walk hwalk
  obtain ⟨-, added, hlines, hcode, -⟩ := hwalked.leaves
  obtain rfl : w.lines.toList = added := hlines
  have hscoped : OnlyRaw (scopedDirectives ds) := fun d hd => hraw d (List.mem_filter.1 hd).1
  have havoids := hwalked.avoids hscoped (Nat.le_refl _) (reserved_ofList m _ _)
  refine ⟨w, events, hwalked, rfl, hcode, fun address i bytes scope hevent d hd hdata => ?_⟩
  refine meets_iff_of_not_contains (havoids _ hevent d (List.mem_filter.2 ⟨hd, ?_⟩) hdata)
  unfold isData at hdata
  unfold Directive.isGlobalFormat
  cases ha : d.annotation <;> simp [ha] at hdata ⊢

/-- A jump runs into a block of two bytes, and the block is rendered from behind the jump. -/
theorem disassemble_code_meets_block_sample :
    let m : Machine := ⟨⟨#[0xC3, 0x00, 0x80, 0x00], 0, 0x8000, 4, by decide, by decide⟩,
      Spectrum.charset, Spectrum.floats⟩
    let block : Directive := ⟨0x8002, 0x8003, .dataBlock Preset.rawBytes⟩
    OnlyRaw [block] ∧
      (disassemble m [block] {}).2.toOption = some "8000  JP #8000\n8003  DEFB  #00\n" ∧
      ∃ w events, Walked m 0x8000 (.start {} [block]) events w ∧
        ∀ address i bytes scope, .code address i bytes scope ∈ events →
          (Meets address i.length block ↔
            address < 0x8002 ∧ 0x8002 < address + i.length ∧ block.first ≤ block.last) := by
  intro m block
  have hraw : OnlyRaw [block] := by simp [OnlyRaw, block]
  have hlisting : (disassemble m [block] {}).2.toOption =
      some "8000  JP #8000\n8003  DEFB  #00\n" := by
    decide +kernel
  obtain ⟨text, htext, -⟩ := exists_ok_of_toOption_map (f := id)
    (Option.map_id'.trans hlisting)
  obtain ⟨w, events, hwalked, -, -, hmeets⟩ :=
    disassemble_code_meets_block m [block] {} hraw htext
  refine ⟨hraw, hlisting, w, events, hwalked, ?_⟩
  intro address i bytes scope hevent
  exact hmeets address i bytes scope hevent block List.mem_cons_self rfl

/-- **A jump that starts before a block is decoded across it**: the walk has no stop inside the jump,
so it never looks for the block. -/
theorem disassemble_jump_meets_block :
    let m : Machine := ⟨⟨#[0xC3, 0x00, 0x80], 0, 0x8000, 3, by decide, by decide⟩,
      Spectrum.charset, Spectrum.floats⟩
    let block : Directive := ⟨0x8001, 0x8002, .dataBlock Preset.rawBytes⟩
    OnlyRaw [block] ∧ isData block = true ∧
      (disassemble m [block] {}).2.toOption = some "8000  JP #8000\n" ∧
      ∃ w i bytes, walkOf m [block] {} = .ok w ∧
        Walked m 0x8000 (.start {} [block]) [.code 0x8000 i bytes {}] w ∧
        Meets 0x8000 i.length block := by
  intro m block
  let w := (Walk.start {} [block]).expire 0x8000
  have hjump : (Z80.decode (m.image.windowUpTo 0x8000 Z80.longest) (UInt16.ofNat 0x8000)
      w.scope.numberBase).toOption.map Z80.Instruction.length = some 3 := by
    decide +kernel
  obtain ⟨i, hdecode, hlength⟩ := exists_ok_of_toOption_map hjump
  have hstop : Stopped m 0x8000 w _ _ _ := .code (.refl _) rfl hdecode
  refine ⟨by simp [OnlyRaw, block], rfl, by decide +kernel, _, i, _, ?_,
    .stop (by decide) hstop (.finish _ ?_), ?_⟩
  · have hstep : (Walk.start {} [block]).step m 0x8000 = w.decodeLine m 0x8000 := rfl
    change (walkFrom m 3 0x8000 (.start {} [block]) _).2 = .ok _
    rw [walkFrom, if_pos (by decide)]
    simp only [hstep, decodeLine, hdecode]
    rw [walkFrom, if_neg (by rw [hlength]; decide)]
  · rw [hlength]; decide
  · rw [hlength]
    exact ⟨0x8001, by decide, by decide, by decide⟩

end Disassembly
