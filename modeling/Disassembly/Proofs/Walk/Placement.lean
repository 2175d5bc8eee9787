/-
# Where comments are placed

Where every byte is either decoded or dumped as it is, the lines of a walk lie one behind the other,
and which comments are on a line can be told from the directives alone (`Walked.placed`): the plain
comments that fall on its bytes, and for an instruction the comments on operands whose range holds
its address, once for each operand that they are about. Each line is given with the directives whose
comments it bears (`Placed`).
-/

import Disassembly.Proofs.Overlay.Kept
import Disassembly.Proofs.Walk.History
import Disassembly.Proofs.Walk.Tiling

namespace Disassembly
namespace Walk

open Script

/-- A line shows bytes at an address: as the instruction that the window has there, or as data. -/
def Displays (m : Machine) (address : Nat) (bytes : List UInt8) (line : Line) :
    Option Z80.Instruction → Prop
  | some i => ∃ scope, Z80.decode (m.image.windowFrom address) (UInt16.ofNat address)
      scope.numberBase = .ok i ∧ i.length = bytes.length ∧ line.bare = codeLine i bytes scope address
  | none => ∃ scope, line.bare = rawLine scope address bytes

/-- A line with what it shows, and with the directives whose comments are attached to it, in order. -/
structure Placed (m : Machine) where
  address : Nat
  bytes : List UInt8
  line : Line
  instruction? : Option Z80.Instruction
  attached : List Directive
  bytes_ne_nil : bytes ≠ []
  displays : Displays m address bytes line instruction?
  line_eq : line = line.bare.attachAll (attached.filterMap Directive.comment?)

variable {m : Machine}

/-- Whether the comments on a line are those that the directives put there. -/
structure Placed.IsAnnotated (ds : List Directive) (p : Placed m) : Prop where
  plain : p.attached.filter Directive.isPlainComment = (Directive.sort ds).filter
    (Directive.fallsOn m.image.origin.toNat p.address p.bytes.length)
  matchers : ∀ d, d.isMatcher = true → p.attached.count d =
    match p.instruction? with
    | some i =>
      if d.contains p.address then i.operands.countP (d.isAbout ·) * ds.count d else 0
    | none => 0

/-- Lines lie one behind the other, from one address to another. -/
inductive Laid (m : Machine) : Nat → List (Placed m) → Nat → Prop
  | nil (address : Nat) : Laid m address [] address
  | cons (p : Placed m) {places : List (Placed m)} {stop : Nat}
      (rest : Laid m (p.address + p.bytes.length) places stop) :
      Laid m p.address (p :: places) stop

/-- Lines that meet lie one behind the other. -/
theorem Laid.append {address address' stop : Nat} {places places' : List (Placed m)}
    (h : Laid m address places address') (h' : Laid m address' places' stop) :
    Laid m address (places ++ places') stop := by
  induction h with
  | nil address => exact h'
  | cons p rest ih => exact .cons p (ih h')

variable {ds : List Directive} {w u w' : Walk} {cursor next : Nat}

/-- A part of a walk adds lines with the comments that the directives put there, and leaves the
comments that come behind. -/
def Places (m : Machine) (ds : List Directive) (cursor : Nat) (w : Walk) (next : Nat) (w' : Walk) :
    Prop :=
  ∃ places : List (Placed m), Laid m cursor places next ∧
    w'.lines.toList = w.lines.toList ++ places.map Placed.line ∧
    (∀ p ∈ places, p.IsAnnotated ds) ∧ w'.overlay.Kept m.image.origin.toNat next ds

/-- What a part of a walk adds depends on the lines before alone. -/
theorem Places.congr_left (h : Places m ds cursor u next w') (hlines : u.lines = w.lines) :
    Places m ds cursor w next w' := by
  unfold Places at h
  rwa [hlines] at h

/-! ### Lines of data -/

/-- The text of a line of raw bytes. -/
def rawText (setting : Setting) (bytes : List UInt8) : String :=
  (rawLayout setting setting.scope.numberBase).lineText setting
    (bytes.map fun b => Numeral.operand b.toNat .byte setting.scope.numberBase false)

/-- A line of raw bytes is ended with the comments on its bytes. -/
theorem writeRawLine_eq (setting : Setting) {c : Context} {bytes : List UInt8}
    (hspacing : c.format.spacing = 0) (hne : bytes ≠ []) (htop : bytes.length < 0x10000) :
    let taken := c.overlay.takeComments c.lineStart.toNat (c.lineStart.toNat + bytes.length - 1)
    (writeRawLine setting setting.scope.numberBase c bytes).lines.toList = c.lines.toList ++
        [Context.finishedLine setting ⟨c.marker setting, rawText setting bytes⟩ taken.1] ∧
      (writeRawLine setting setting.scope.numberBase c bytes).overlay = taken.2 := by
  have hlength : 0 < bytes.length := List.length_pos_of_ne_nil hne
  have hlast : c.lineStart.toNat + max (UInt16.ofNat ((rawLayout setting
      setting.scope.numberBase).size * (bytes.map fun b => Numeral.operand b.toNat .byte
        setting.scope.numberBase false).length)).toNat 1 - 1 =
      c.lineStart.toNat + bytes.length - 1 := by
    rw [show (rawLayout setting setting.scope.numberBase).size = 1 from rfl, List.length_map,
      UInt16.toNat_ofNat']
    omega
  intro taken
  have htaken : c.overlay.takeComments c.lineStart.toNat (c.lineStart.toNat + max (UInt16.ofNat
      ((rawLayout setting setting.scope.numberBase).size * (bytes.map fun b => Numeral.operand
        b.toNat .byte setting.scope.numberBase false).length)).toNat 1 - 1) = taken := by
    rw [hlast]
  refine ⟨?_, congrArg Prod.snd htaken⟩
  rw [← htaken]
  have hlines (record : Line) :
      (c.lines.push record ++ Array.replicate c.format.spacing Line.blank).toList =
        c.lines.toList ++ [record] := by
    rw [hspacing]
    simp
  exact hlines _

/-- A line that a script ends is its line without comments, with the comments attached. -/
theorem finishedLine_eq {setting : Setting} (hcomments : setting.scope.comments = true)
    (line : OpenLine) (comments : List Overlay.Comment) :
    Context.finishedLine setting line comments =
      (Context.finishedLine setting line comments).bare.attachAll comments := by
  rw [Context.bare_finishedLine, Context.finishedLine, if_pos hcomments]

/-- **A line of raw bytes bears the plain comments that fall on it.** -/
theorem writeRawLine_placed {setting : Setting} {c : Context} {bytes : List UInt8}
    (hcomments : setting.scope.comments = true) (hspacing : c.format.spacing = 0)
    (hne : bytes ≠ []) (htop : bytes.length < 0x10000)
    (hlo : m.image.origin.toNat ≤ c.lineStart.toNat)
    (hkept : c.overlay.Kept m.image.origin.toNat c.lineStart.toNat ds) :
    ∃ p : Placed m, p.address = c.lineStart.toNat ∧ p.bytes = bytes ∧ p.IsAnnotated ds ∧
      (writeRawLine setting setting.scope.numberBase c bytes).lines.toList =
        c.lines.toList ++ [p.line] ∧
      (writeRawLine setting setting.scope.numberBase c bytes).overlay.Kept m.image.origin.toNat
        (c.lineStart.toNat + bytes.length) ds := by
  obtain ⟨hlines, hoverlay⟩ := writeRawLine_eq setting hspacing hne htop
  obtain ⟨htaken, hkept'⟩ := hkept.takeComments hlo (List.length_pos_of_ne_nil hne)
  rw [htaken] at hlines
  rw [← hoverlay] at hkept'
  refine ⟨{
    address := c.lineStart.toNat
    bytes := bytes
    line := _
    instruction? := none
    attached := (Directive.sort ds).filter
      (Directive.fallsOn m.image.origin.toNat c.lineStart.toNat bytes.length)
    bytes_ne_nil := hne
    displays := ⟨setting.scope, bare_rawLine setting c bytes _⟩
    line_eq := finishedLine_eq hcomments _ _ }, rfl, rfl,
    ⟨Directive.filter_plain_fallsOn _ _ _ _, fun d hmatcher =>
      Directive.count_fallsOn _ _ _ _ hmatcher⟩, hlines, hkept'⟩

/-- **Lines of raw bytes bear the plain comments that fall on them.** -/
theorem foldl_writeRawLine_placed {setting : Setting} (hcomments : setting.scope.comments = true)
    (pieces : List (List UInt8)) {c : Context} (hspacing : c.format.spacing = 0)
    (hne : ∀ bytes ∈ pieces, bytes ≠ [])
    (htop : c.lineStart.toNat + pieces.flatten.length < 0x10000)
    (hlo : m.image.origin.toNat ≤ c.lineStart.toNat)
    (hkept : c.overlay.Kept m.image.origin.toNat c.lineStart.toNat ds) :
    ∃ places : List (Placed m),
      Laid m c.lineStart.toNat places (c.lineStart.toNat + pieces.flatten.length) ∧
      (pieces.foldl (writeRawLine setting setting.scope.numberBase) c).lines.toList =
        c.lines.toList ++ places.map Placed.line ∧
      (∀ p ∈ places, p.IsAnnotated ds) ∧
      (pieces.foldl (writeRawLine setting setting.scope.numberBase) c).overlay.Kept
        m.image.origin.toNat (c.lineStart.toNat + pieces.flatten.length) ds := by
  induction pieces generalizing c with
  | nil => exact ⟨[], .nil _, (List.append_nil _).symm, List.forall_mem_nil _, hkept⟩
  | cons bytes pieces ih =>
    rw [List.flatten_cons, List.length_append] at htop ⊢
    obtain ⟨p, haddress, hbytes, hannotated, hline, hkept'⟩ := writeRawLine_placed (m := m)
      hcomments hspacing (hne bytes List.mem_cons_self) (by omega) hlo hkept
    have hstart : (writeRawLine setting setting.scope.numberBase c bytes).lineStart.toNat =
        c.lineStart.toNat + bytes.length :=
      toNat_lineStart_writeRawLine setting setting.scope.numberBase (by omega)
    obtain ⟨places, hlaid, hlines, hall, hdone⟩ :=
      ih (c := writeRawLine setting setting.scope.numberBase c bytes) hspacing
        (fun bs hbs => hne bs (List.mem_cons_of_mem _ hbs)) (by omega) (by omega)
        (hstart ▸ hkept')
    rw [hstart, Nat.add_assoc] at hlaid hdone
    refine ⟨p :: places, ?_, ?_, List.forall_mem_cons.2 ⟨hannotated, hall⟩, hdone⟩
    · rw [← haddress, ← hbytes] at hlaid ⊢
      exact .cons p hlaid
    · rw [List.foldl_cons, hlines, hline, List.append_assoc, List.map_cons, List.singleton_append]

/-- **A block of raw bytes bears the plain comments that fall on its lines.** -/
theorem dataBlock_places {last : UInt16} (hcomments : w.scope.comments = true)
    (hlo : m.image.origin.toNat ≤ cursor) (hhi : cursor < m.image.stop)
    (hlast : cursor ≤ last.toNat) (hkept : w.overlay.Kept m.image.origin.toNat cursor ds)
    (h : w.dataBlock m cursor last Preset.rawBytes = .ok (next, w')) :
    Places m ds cursor w next w' ∧ next ≤ m.image.stop := by
  by_cases htop : min last m.image.last = 0xFFFF
  · exact absurd h (dataBlock_rawBytes_ne_ok htop next w')
  · rw [dataBlock_rawBytes hlo hhi hlast htop] at h
    obtain ⟨rfl, rfl⟩ := Prod.mk.inj (Except.ok.inj h)
    have hlen := length_blockBytes last hlo hhi
    have hend := blockStop_lt htop
    have hstop : cursor < blockStop m last ∧ blockStop m last ≤ m.image.stop := by
      unfold blockStop; omega
    have hflat := Routine.Dump.flatten_chunks 8 (blockBytes m cursor last)
    have hstart : (w.context m cursor last).lineStart.toNat = cursor := toNat_cursor hhi
    have hsum : cursor + (blockStop m last - cursor) = blockStop m last := by omega
    have hshown : (w.setting m).scope.comments = true := hcomments
    obtain ⟨places, hlaid, hlines, hall, hdone⟩ := foldl_writeRawLine_placed (m := m) hshown
      (Routine.Dump.chunks 8 (blockBytes m cursor last)) (c := w.context m cursor last) rfl
      (fun _ => Routine.Dump.ne_nil_of_mem_chunks)
      (by rw [hflat, hlen, hstart]; omega) (by rw [hstart]; exact hlo) (by rw [hstart]; exact hkept)
    rw [hstart, hflat, hlen, hsum] at hlaid hdone
    refine ⟨⟨places, hlaid, ?_, hall, hdone⟩, hstop.2⟩
    rw [Array.toList_append]
    exact congrArg (w.lines.toList ++ ·) hlines

/-! ### Lines of instructions -/

/-- The comments on operands that an instruction bears, as often as operands have them. -/
theorem count_matchers (o : Overlay) (address : Nat) (operands : List Z80.Operand) (d : Directive) :
    (operands.flatMap fun operand => o.live.filter
        fun e => e.contains address && e.isAbout operand).count d =
      if d.contains address then operands.countP (d.isAbout ·) * o.live.count d else 0 := by
  induction operands with
  | nil => simp
  | cons operand operands ih =>
    rw [List.flatMap_cons, List.count_append, ih, List.countP_cons]
    cases hcontains : d.contains address with
    | false =>
      have hcount : (o.live.filter fun e => e.contains address && e.isAbout operand).count d = 0 :=
        List.count_eq_zero.2 fun hmem => by simp [hcontains] at hmem
      simp [hcount]
    | true =>
      cases habout : d.isAbout operand with
      | false =>
        have hcount : (o.live.filter fun e => e.contains address && e.isAbout operand).count d = 0 :=
          List.count_eq_zero.2 fun hmem => by simp [habout] at hmem
        simp [hcount]
      | true =>
        rw [List.count_filter (by rw [hcontains, habout]; rfl)]
        simp only [if_true]
        rw [Nat.add_mul, Nat.one_mul, Nat.add_comm]

/-- **The line of an instruction bears the plain comments that fall on it and the comments on its
operands.** -/
theorem addCode_places {i : Z80.Instruction} (hcomments : w.scope.comments = true)
    (hlo : m.image.origin.toNat ≤ cursor) (hhi : cursor < m.image.stop)
    (hkept : w.overlay.Kept m.image.origin.toNat cursor ds)
    (hnone : w.overlay.takeActive cursor = none)
    (h : Z80.decode (m.image.windowFrom cursor) (UInt16.ofNat cursor) w.scope.numberBase = .ok i) :
    Places m ds cursor w (cursor + i.length)
        (w.addCode i ((m.image.windowFrom cursor).take i.length) cursor) ∧
      cursor + i.length ≤ m.image.stop := by
  obtain ⟨hpos, hfits⟩ := Z80.decode_length h
  have hlen := Image.length_windowFrom hlo (Nat.le_of_lt hhi)
  have htake : ((m.image.windowFrom cursor).take i.length).length = i.length :=
    List.length_take_of_le hfits
  obtain ⟨htaken, hkept'⟩ := hkept.takeComments hlo hpos
  have hbare := bare_codeLine i ((m.image.windowFrom cursor).take i.length) w.scope cursor
    ((w.overlay.takeComments cursor (cursor + i.length - 1)).1 ++ i.operands.flatMap
      ((w.overlay.takeComments cursor (cursor + i.length - 1)).2.commentsOn cursor))
  let p : Placed m :=
    { address := cursor
      bytes := (m.image.windowFrom cursor).take i.length
      line := _
      instruction? := some i
      attached := (Directive.sort ds).filter
          (Directive.fallsOn m.image.origin.toNat cursor i.length) ++
        i.operands.flatMap fun operand => w.overlay.live.filter
          fun d => d.contains cursor && d.isAbout operand
      bytes_ne_nil := fun hnil => by rw [hnil, List.length_nil] at htake; omega
      displays := ⟨w.scope, h, htake.symm, hbare⟩
      line_eq := by
        rw [hbare, if_pos hcomments, htaken, List.filterMap_append, List.filterMap_flatMap]
        refine congrArg (fun f => Line.attachAll _ (_ ++ i.operands.flatMap f)) (funext fun x => ?_)
        rw [Overlay.commentsOn_eq, Overlay.live_takeComments] }
  have hp : p.IsAnnotated ds := by
    refine ⟨?_, fun d hmatcher => ?_⟩
    · change List.filter _ (_ ++ _) = List.filter (Directive.fallsOn _ cursor
        ((m.image.windowFrom cursor).take i.length).length) _
      rw [List.filter_append, Directive.filter_plain_fallsOn, htake]
      refine (congrArg (_ ++ ·) (List.filter_eq_nil_iff.2 fun d hd => ?_)).trans
        (List.append_nil _)
      obtain ⟨operand, -, hlive⟩ := List.mem_flatMap.1 hd
      have habout := (Bool.and_eq_true_iff.1 (List.mem_filter.1 hlive).2).2
      rw [Directive.isPlainComment_of_isMatcher (Directive.isMatcher_of_isAbout habout)]
      decide
    · change List.count d (_ ++ _) = _
      rw [List.count_append, Directive.count_fallsOn _ _ _ _ hmatcher, Nat.zero_add, count_matchers]
      cases hcontains : d.contains cursor with
      | false => simp [p]
      | true => simp [p, hkept.count_live hnone hmatcher hcontains]
  refine ⟨⟨[p], ?_, Array.toList_push, by simpa using hp, hkept'⟩, by omega⟩
  have hlaid := Laid.cons p (.nil (p.address + p.bytes.length))
  rwa [show p.bytes.length = i.length from htake] at hlaid

/-! ### Stops and walks -/

/-- A directive that is adopted comes into effect if it is a comment on operands that has not ended,
and changes nothing in the overlay otherwise. -/
theorem adopt_overlay (cursor : Nat) (d : Directive) (w : Walk) :
    (adopt cursor d w).overlay = w.overlay.activate d ∨
      ((adopt cursor d w).overlay = w.overlay ∧ (d.last.toNat < cursor ∨ d.isMatcher = false)) := by
  unfold adopt Directive.isMatcher
  split
  · rename_i hended
    exact .inr ⟨rfl, .inl hended⟩
  · cases d.annotation with
    | reference | displacement => exact .inl rfl
    | _ => exact .inr ⟨rfl, .inr rfl⟩

/-- Taking up directives keeps the comments that are to come. -/
theorem TakesUp.kept (h : TakesUp cursor w w')
    (hkept : w.overlay.Kept m.image.origin.toNat cursor ds) :
    w'.overlay.Kept m.image.origin.toNat cursor ds := by
  induction h with
  | refl => exact hkept
  | @head w w' d o taken quiet rest ih =>
    refine ih ?_
    have hlive := (Overlay.takeActive_eq_some taken).2.1
    rcases adopt_overlay cursor d { w with overlay := o } with heq | ⟨heq, hd⟩
    · rw [heq]
      exact hkept.takeActive taken (Overlay.pending_activate o d)
        (.inl (congrArg (Overlay.activateLive d) hlive))
    · rw [heq]
      exact hkept.takeActive taken rfl (.inr ⟨hlive, hd⟩)

/-- **A stop adds lines with the comments that the directives put there.** -/
theorem Stopped.places {events : List Event} (h : Stopped m cursor w events next w')
    (hraw : OnlyRaw ds) (hshown : ∀ e ∈ events, e.scope.comments = true)
    (hlo : m.image.origin.toNat ≤ cursor) (hhi : cursor < m.image.stop)
    (hkept : w.overlay.Kept m.image.origin.toNat cursor ds) :
    Places m ds cursor w next w' ∧ next ≤ m.image.stop := by
  cases h with
  | code taken hnone hdecode =>
    obtain ⟨hwhole, hbytes⟩ := decode_windowFrom hdecode
    obtain ⟨hplaces, hstop⟩ := addCode_places (hshown _ List.mem_cons_self) hlo hhi
      (taken.kept hkept) hnone hwhole
    rw [hbytes]
    exact ⟨hplaces.congr_left taken.lines_eq, hstop⟩
  | cutOff taken hnone hdecode renders =>
    obtain ⟨hplaces, hstop⟩ := dataBlock_places (hshown _ List.mem_cons_self) hlo hhi
      (by rw [toNat_last]; omega) (taken.kept hkept) renders.1
    exact ⟨hplaces.congr_left taken.lines_eq, hstop⟩
  | @block _ u _ d o program trace _ taken hsome hlast hprogram renders =>
    have hu := taken.kept hkept
    obtain rfl := (hraw d (hu.mem_of_takeActive hsome)).2 program hprogram
    have hlive := (Overlay.takeActive_eq_some hsome).2.1
    have hother : d.isMatcher = false := by rw [Directive.isMatcher, hprogram]
    have hkept' : o.Kept m.image.origin.toNat cursor ds :=
      hu.takeActive hsome rfl (.inr ⟨hlive, .inr hother⟩)
    obtain ⟨hplaces, hstop⟩ := dataBlock_places (w := { u with overlay := o })
      (hshown _ List.mem_cons_self) hlo hhi hlast hkept' renders.1
    exact ⟨hplaces.congr_left taken.lines_eq, hstop⟩
  | @search _ u _ _ d o program _ _ _ taken hsome hlast hprogram scans onward =>
    have hmem := (taken.kept hkept).mem_of_takeActive hsome
    exact absurd hprogram ((hraw d hmem).1 program)

/-- **A walk adds lines with the comments that the directives put there**, up to the end of the
window. -/
theorem Walked.places {events : List Event} (h : Walked m cursor w events w')
    (hraw : OnlyRaw ds) (hshown : ∀ e ∈ events, e.scope.comments = true)
    (hlo : m.image.origin.toNat ≤ cursor) (hhi : cursor ≤ m.image.stop)
    (hkept : w.overlay.Kept m.image.origin.toNat cursor ds) :
    Places m ds cursor w m.image.stop w' := by
  induction h with
  | finish w hstop =>
    obtain rfl := Nat.le_antisymm hhi hstop
    exact ⟨[], .nil _, by simp, List.forall_mem_nil _, hkept⟩
  | stop hcursor stopped onward ih =>
    obtain ⟨hshown, hshown'⟩ := List.forall_mem_append.1 hshown
    have hnext := stopped.lt
    obtain ⟨⟨places, hlaid, hlines, hall, hkept'⟩, hstop⟩ :=
      stopped.places hraw hshown hlo hcursor hkept.expire
    obtain ⟨places', hlaid', hlines', hall', hdone⟩ := ih hshown' (by omega) hstop hkept'
    refine ⟨places ++ places', hlaid.append hlaid', ?_, List.forall_mem_append.2 ⟨hall, hall'⟩,
      hdone⟩
    rw [hlines', hlines, List.map_append, List.append_assoc]
    rfl

/-- **The comments on the lines of a walk can be told from the directives.** -/
theorem Walked.placed {base : Scope} {events : List Event}
    (h : Walked m m.image.origin.toNat (start base ds) events w) (hraw : OnlyRaw ds)
    (hshown : ∀ e ∈ events, e.scope.comments = true) :
    ∃ places : List (Placed m), Laid m m.image.origin.toNat places m.image.stop ∧
      places.map Placed.line = w.lines.toList ∧ ∀ p ∈ places, p.IsAnnotated ds := by
  have hstop : m.image.stop = m.image.origin.toNat + m.image.length := rfl
  obtain ⟨places, hlaid, hlines, hall, -⟩ := h.places hraw hshown (Nat.le_refl _) (by omega)
    (Overlay.kept_ofList _ ds)
  exact ⟨places, hlaid, hlines.symm, hall⟩

end Walk
end Disassembly
