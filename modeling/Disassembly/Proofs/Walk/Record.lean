/-
# What a history leaves

The references and the lines after a walk can be read off its history. An address is referred to if
an operand of a decoded instruction does so or a script emitted it. The code lines are those of the
decoded instructions, in order, and all other lines with a marker are marked as data
(`Walked.leaves`).
-/

import Disassembly.Proofs.Walk.History

namespace Disassembly

/-- Whether the line shows an instruction. -/
def Line.isCode (line : Line) : Bool :=
  match line.body with
  | .code _ => true
  | _ => false

/-- Whether the marker of the line, if there is one, says what the line shows: code or data. -/
def Line.IsMarkedRight (line : Line) : Prop :=
  ∀ marker, line.marker = some marker → marker.data = !line.isCode

namespace Script

/-- Whether a script has written data alone: its lines are no code and are marked as data, and so is
the line under construction. -/
structure Context.WritesData (c : Context) : Prop where
  open_line : ∀ line, c.line = some line → line.marker.data = true
  lines : ∀ line ∈ c.lines.toList, line.isCode = false ∧ line.IsMarkedRight

variable {setting : Setting} {c : Context}

/-- A line that a script ends is no code, and is marked as data. -/
theorem finishedLine_isData {line : OpenLine} (h : line.marker.data = true)
    (comments : List Overlay.Comment) :
    (Context.finishedLine setting line comments).isCode = false ∧
      (Context.finishedLine setting line comments).IsMarkedRight := by
  have hbare := Context.bare_finishedLine setting line comments
  have hcode : (Context.finishedLine setting line comments).isCode = false := by
    change (Context.finishedLine setting line comments).bare.isCode = false
    rw [hbare]
    rfl
  refine ⟨hcode, fun marker hmarker => ?_⟩
  rw [← Line.bare_marker, hbare] at hmarker
  obtain rfl := Option.some.inj hmarker
  rw [hcode, h]
  rfl

theorem Context.WritesData.endLine (h : c.WritesData) : (c.endLine setting).WritesData := by
  unfold Context.endLine
  split
  · exact ⟨h.open_line, h.lines⟩
  · rename_i line hline
    refine ⟨fun line hnone => absurd hnone (by simp [Context.nextLine]), fun line' hmem => ?_⟩
    simp only [Context.nextLine, Array.toList_append, Array.toList_push, List.mem_append,
      List.mem_singleton, Array.toList_replicate] at hmem
    rcases hmem with (hold | rfl) | hblank
    · exact h.lines line' hold
    · exact finishedLine_isData (h.open_line line hline) _
    · obtain rfl := List.eq_of_mem_replicate hblank
      exact ⟨rfl, fun marker hmarker => absurd hmarker (by simp [Line.blank])⟩

/-- **Every edit of a script writes data alone.** -/
theorem Context.WritesData.apply (h : c.WritesData) (e : Edit) :
    (e.apply setting c).WritesData := by
  cases e with
  | pushText text =>
    simp only [Edit.apply, Context.pushText]
    split
    · rename_i line hline
      refine ⟨fun line' hsome => ?_, h.lines⟩
      obtain rfl := Option.some.inj hsome
      exact h.open_line line hline
    · exact ⟨fun line' hsome => Option.some.inj hsome ▸ rfl, h.lines⟩
  | startLine =>
    simp only [Edit.apply, Context.startLine]
    split <;> exact ⟨fun line' hsome => Option.some.inj hsome ▸ rfl, h.lines⟩
  | endLine => exact h.endLine
  | dropLine => exact ⟨fun line' hsome => absurd hsome (Option.some_ne_none line').symm, h.lines⟩
  | beginCandidate address matched =>
    exact ⟨fun line' hsome => absurd hsome (Option.some_ne_none line').symm, h.lines⟩
  | _ =>
    obtain ⟨hopen, hlines⟩ := h
    cases c
    exact ⟨hopen, hlines⟩

/-- **A script writes data alone.** -/
theorem ScriptedBy.writesData {ε α : Type} {x : EStateM ε Context α} {a : α} {c' : Context}
    (hx : Scripted setting x) (h : x c = .ok a c') (hc : c.WritesData) : c'.WritesData := by
  have hedits (edits : List Edit) (c : Context) (hc : c.WritesData) :
      (Edit.applyAll setting edits c).WritesData := by
    induction edits generalizing c with
    | nil => exact hc
    | cons e edits ih => exact ih _ (hc.apply e)
  obtain ⟨edits, result, -, hrun, -⟩ := hx c c rfl
  cases result with
  | error e => exact absurd (h.symm.trans hrun) (by simp [outcome])
  | ok b =>
    obtain ⟨-, rfl⟩ := EStateM.Result.ok.inj (h.symm.trans hrun)
    exact hedits edits c hc

end Script

namespace Walk

open Script

/-- Whether something that happened refers to an address: an instruction by an operand that is an
address, or a word if words count, and a script by emitting it. -/
def Event.RefersTo (a : UInt16) : Event → Prop
  | code _ i _ scope => .relative a ∈ i.operands ∨ .address a ∈ i.operands ∨
      (scope.dataReferences = true ∧ .number a ∈ i.operands)
  | script setting trace => ∃ v ∈ trace, v.emitted? setting = some a

/-- The line of an instruction that was decoded, without comments. -/
def Event.line? : Event → Option Line
  | code address i bytes scope => some (codeLine i bytes scope address)
  | script _ _ => none

/-- What a part of a history leaves: it adds to the references what is referred to, and lines, of
which those with code are the lines of the instructions. -/
structure Leaves (events : List Event) (w w' : Walk) : Prop where
  references : ∀ a, a ∈ w'.references ↔ a ∈ w.references ∨ ∃ e ∈ events, e.RefersTo a
  lines : ∃ added, w'.lines.toList = w.lines.toList ++ added ∧
    (added.filter Line.isCode).map Line.bare = events.filterMap Event.line? ∧
    ∀ line ∈ added, line.IsMarkedRight

variable {m : Machine} {cursor next : Nat} {w u w' : Walk} {events events' : List Event}

namespace Leaves

protected theorem refl (w : Walk) : Leaves [] w w :=
  ⟨fun a => by simp, [], by simp⟩

/-- What two parts of a history leave one after the other. -/
theorem append (h : Leaves events w u) (h' : Leaves events' u w') :
    Leaves (events ++ events') w w' := by
  obtain ⟨hrefs, added, hlines, hcode, hmarked⟩ := h
  obtain ⟨hrefs', added', hlines', hcode', hmarked'⟩ := h'
  refine ⟨fun a => ?_, added ++ added', ?_, ?_, fun line hline => ?_⟩
  · rw [hrefs' a, hrefs a, or_assoc]
    refine or_congr_right ?_
    simp only [List.mem_append, or_and_right, exists_or]
  · rw [hlines', hlines, List.append_assoc]
  · rw [List.filter_append, List.map_append, hcode, hcode', List.filterMap_append]
  · exact (List.mem_append.1 hline).elim (hmarked line) (hmarked' line)

/-- What is left depends on the references and the lines before alone. -/
theorem congr_left (h : Leaves events u w') (hreferences : u.references = w.references)
    (hlines : u.lines = w.lines) : Leaves events w w' := by
  obtain ⟨hrefs, added, hadded⟩ := h
  rw [hreferences] at hrefs
  rw [hlines] at hadded
  exact ⟨hrefs, added, hadded⟩

end Leaves

theorem TakesUp.references_eq (h : TakesUp cursor w w') : w'.references = w.references := by
  induction h with
  | refl => rfl
  | head taken quiet rest ih => rw [ih, adopt_references]

/-- The addresses that operands refer to, one kind at a time. -/
theorem mem_filterMap_reference {a : UInt16} {dataReferences : Bool} {operands : List Z80.Operand} :
    a ∈ operands.filterMap (reference? dataReferences) ↔ .relative a ∈ operands ∨
      .address a ∈ operands ∨ (dataReferences = true ∧ .number a ∈ operands) := by
  rw [List.mem_filterMap]
  constructor
  · rintro ⟨operand, hmem, href⟩
    cases operand with
    | relative b => exact .inl (Option.some.inj href ▸ hmem)
    | address b => exact .inr (.inl (Option.some.inj href ▸ hmem))
    | number b =>
      rw [reference?] at href
      split at href
      · rename_i hdata
        exact .inr (.inr ⟨hdata, Option.some.inj href ▸ hmem⟩)
      · exact absurd href (by simp)
    | _ => exact absurd href (by simp [reference?])
  · rintro (hmem | hmem | ⟨hdata, hmem⟩)
    · exact ⟨_, hmem, rfl⟩
    · exact ⟨_, hmem, rfl⟩
    · exact ⟨_, hmem, by rw [reference?, if_pos hdata]⟩

/-- Addresses that are inserted one after the other are there, with those that were. -/
theorem mem_foldl_insert {a : UInt16} (addresses : List UInt16) (refs : Std.TreeSet UInt16) :
    a ∈ addresses.foldl (fun refs b => refs.insert b) refs ↔ a ∈ refs ∨ a ∈ addresses := by
  induction addresses generalizing refs with
  | nil => simp
  | cons b addresses ih =>
    rw [List.foldl_cons, ih, Std.TreeSet.mem_insert, Std.LawfulEqCmp.compare_eq_iff_eq,
      List.mem_cons, or_assoc, or_left_comm, eq_comm (a := b)]

/-- A line that is the line of an instruction, apart from comments, shows code and is marked so. -/
theorem isCode_of_bare {line : Line} {i : Z80.Instruction} {bytes : List UInt8} {scope : Scope}
    (h : line.bare = codeLine i bytes scope cursor) : line.isCode = true ∧ line.IsMarkedRight := by
  have hcode : line.isCode = true := by
    change line.bare.isCode = true
    rw [h]
    rfl
  refine ⟨hcode, fun marker hmarker => ?_⟩
  rw [← Line.bare_marker, h] at hmarker
  obtain rfl := Option.some.inj hmarker
  rw [hcode]
  rfl

/-- **An instruction leaves its line and what its operands refer to.** -/
theorem addCode_leaves (w : Walk) (i : Z80.Instruction) (bytes : List UInt8) (cursor : Nat) :
    Leaves [.code cursor i bytes w.scope] w (w.addCode i bytes cursor) := by
  have hbare := bare_codeLine i bytes w.scope cursor
    ((w.overlay.takeComments cursor (cursor + i.length - 1)).1 ++
      i.operands.flatMap
        ((w.overlay.takeComments cursor (cursor + i.length - 1)).2.commentsOn cursor))
  obtain ⟨hcode, hmarked⟩ := isCode_of_bare hbare
  refine ⟨fun a => ?_, _, Array.toList_push, ?_, fun line hline => ?_⟩
  · simp only [addCode, mem_foldl_insert, mem_filterMap_reference, List.mem_singleton,
      exists_eq_left, Event.RefersTo]
  · rw [List.filter_cons_of_pos hcode, List.filter_nil, List.map_singleton, hbare]
    rfl
  · obtain rfl := List.mem_singleton.1 hline
    exact hmarked

variable {last : UInt16} {program : String} {trace : List Place}

/-- **A data block leaves lines of data and what its script emits.** -/
theorem Renders.leaves (h : Renders m w cursor last program trace next w') :
    Leaves [.script (w.setting m) trace] w w' := by
  obtain ⟨hblock, outcome, c, hrun, hruns⟩ := h
  rw [Walk.dataBlock, hrun] at hblock
  obtain ⟨-, rfl⟩ := Prod.mk.inj (Except.ok.inj hblock)
  have hstart : (w.context m cursor last).WritesData :=
    ⟨fun line hsome => absurd hsome (Option.some_ne_none line).symm, List.forall_mem_nil _⟩
  have hc : c.WritesData := (scripted_run (w.setting m) program).writesData hrun hstart
  have hfinish : (c.finish (w.setting m)).WritesData ∧
      (c.finish (w.setting m)).references = c.references := by
    unfold Context.finish
    split
    · exact ⟨hc.endLine, Edit.references_apply (w.setting m) c (e := .endLine) rfl⟩
    · exact ⟨hc, rfl⟩
  refine ⟨fun a => ?_, (c.finish (w.setting m)).lines.toList, Array.toList_append, ?_,
    fun line hline => (hfinish.1.lines line hline).2⟩
  · simp only [hfinish.2, hruns.records a, List.mem_singleton, exists_eq_left, Event.RefersTo]
    rfl
  · rw [List.filter_eq_nil_iff.2 fun line hline => by simp [(hfinish.1.lines line hline).1]]
    rfl

/-- **A search leaves no lines, and what its script emits.** -/
theorem Scans.leaves (h : Scans m w cursor last program trace w') :
    Leaves [.script (w.setting m) trace] w w' := by
  obtain ⟨hblock, matched, c, hrun, hruns⟩ := h
  rw [Walk.patternBlock, hrun] at hblock
  obtain rfl := Except.ok.inj hblock
  refine ⟨fun a => ?_, [], (List.append_nil _).symm, rfl, List.forall_mem_nil _⟩
  simp only [hruns.records a, List.mem_singleton, exists_eq_left, Event.RefersTo]
  rfl

/-- **A stop leaves what happened at it.** -/
theorem Stopped.leaves (h : Stopped m cursor w events next w') : Leaves events w w' := by
  induction h with
  | code taken hnone hdecode =>
    exact (addCode_leaves _ _ _ cursor).congr_left taken.references_eq taken.lines_eq
  | cutOff taken hnone hdecode renders =>
    exact renders.leaves.congr_left taken.references_eq taken.lines_eq
  | block taken hsome hlast hprogram renders =>
    exact renders.leaves.congr_left taken.references_eq taken.lines_eq
  | search taken hsome hlast hprogram scans onward ih =>
    exact (scans.leaves.congr_left taken.references_eq taken.lines_eq).append ih

/-- **A walk leaves what happened on it.** -/
theorem Walked.leaves (h : Walked m cursor w events w') : Leaves events w w' := by
  induction h with
  | finish w hstop => exact .refl w
  | @stop cursor next w u w' events events' hcursor stopped onward ih =>
    have hstop : Leaves events w u := stopped.leaves.congr_left rfl rfl
    exact hstop.append ih

end Walk
end Disassembly
