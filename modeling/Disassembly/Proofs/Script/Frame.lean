/-
# What a script leaves alone

A script shares the overlay and the references with the walk, and it can fail at any point. Whatever
it does until then, it does by edits, and no edit touches the frame of a context (`Context.Frame`):
the first address of the block, the comments in effect, the lines that are finished, the pending
directives other than plain comments, and the references that are recorded. So no program can, over
a data block or a pattern block, whether it ends well or not (`run_frame`).
-/

import Disassembly.Proofs.Overlay.Taking
import Disassembly.Proofs.Script.Scripted

namespace Disassembly
namespace Script

/-- **What stays the same of a context**, whatever a script does to it. -/
structure Context.Frame (before after : Context) : Prop where
  /-- The first address of the block, in slot 13. -/
  blockStart : after.slot (.ofNat 13) = before.slot (.ofNat 13)
  /-- The reference and displacement comments in effect. -/
  live : after.overlay.live = before.overlay.live
  /-- Finished lines stay, and new ones come behind them. -/
  lines : before.lines.toList <+: after.lines.toList
  /-- Pending directives stay, in their order, except for plain comments. -/
  pending : (before.overlay.pending.filter fun d => !d.isPlainComment).Sublist
    (after.overlay.pending.filter fun d => !d.isPlainComment)
  /-- References stay. -/
  references : ∀ a ∈ before.references, a ∈ after.references

namespace Context.Frame

variable {setting : Setting} {c c' c'' : Context}

protected theorem refl (c : Context) : c.Frame c :=
  ⟨rfl, rfl, List.prefix_refl _, List.Sublist.refl _, fun _ h => h⟩

protected theorem trans (h : c.Frame c') (h' : c'.Frame c'') : c.Frame c'' where
  blockStart := h'.blockStart.trans h.blockStart
  live := h'.live.trans h.live
  lines := h.lines.trans h'.lines
  pending := h.pending.trans h'.pending
  references a ha := h'.references a (h.references a ha)

/-- Ending a line adds lines and takes plain comments. -/
theorem endLine (setting : Setting) (c : Context) : c.Frame (c.endLine setting) := by
  unfold Context.endLine
  split
  · exact ⟨rfl, rfl, List.prefix_refl _, List.Sublist.refl _, fun _ h => h⟩
  · refine ⟨rfl, Overlay.live_takeComments _ _ _, ?_, ?_, fun _ h => h⟩
    · simp only [nextLine, Array.toList_append, Array.toList_push, List.append_assoc]
      exact List.prefix_append _ _
    · exact (Overlay.filter_takeComments c.overlay c.lineStart.toNat _).symm ▸ List.Sublist.refl _

/-- No edit moves the first address of the block. -/
theorem blockStart_apply (setting : Setting) (c : Context) (e : Edit) :
    (e.apply setting c).blockStart = c.blockStart := by
  cases e with
  | pushText text =>
    simp only [Edit.apply, Context.pushText]
    split <;> rfl
  | startLine =>
    simp only [Edit.apply, Context.startLine]
    split <;> rfl
  | endLine =>
    simp only [Edit.apply, Context.endLine]
    split <;> rfl
  | _ => cases c; rfl

/-- **No edit touches the frame.** -/
theorem apply (setting : Setting) (c : Context) (e : Edit) : c.Frame (e.apply setting c) := by
  by_cases hlocal : e.isLocal = true
  · obtain ⟨hlines, hoverlay, hreferences⟩ := Edit.apply_of_isLocal setting c hlocal
    refine ⟨blockStart_apply setting c e, ?_, ?_, ?_, ?_⟩
    · rw [hoverlay]
    · exact hlines ▸ List.prefix_refl _
    · rw [hoverlay]
    · rw [hreferences]
      exact fun _ h => h
  · cases e with
    | endLine => exact .endLine setting c
    | insert d addable =>
      refine ⟨rfl, rfl, List.prefix_refl _, ?_, fun _ h => h⟩
      change (c.overlay.pending.filter _).Sublist ((c.overlay.insert d).pending.filter _)
      rw [Overlay.pending_insert]
      exact (Overlay.sublist_insertPending d c.overlay.pending).filter _
    | recordReference address =>
      refine ⟨rfl, rfl, List.prefix_refl _, List.Sublist.refl _, fun a ha => ?_⟩
      exact Std.TreeSet.mem_insert.2 (.inr ha)
    | _ => exact absurd rfl hlocal

/-- No number of edits touches the frame. -/
theorem applyAll (setting : Setting) (edits : List Edit) (c : Context) :
    c.Frame (Edit.applyAll setting edits c) := by
  induction edits generalizing c with
  | nil => exact .refl c
  | cons e edits ih => exact (Frame.apply setting c e).trans (ih (e.apply setting c))

/-- Closing a block touches the frame as little as ending a line does. -/
theorem finish (setting : Setting) (c : Context) : c.Frame (c.finish setting) := by
  unfold Context.finish
  split
  · exact .endLine setting c
  · exact .refl c

end Context.Frame

/-- The context in which a run ends, well or with an error. -/
def ending {ε α : Type} : EStateM.Result ε Context α → Context
  | .ok _ c => c
  | .error _ c => c

/-- A step that edits its context by what it sees leaves the frame alone, also when it fails. -/
theorem ScriptedBy.frame {ε α : Type} {setting : Setting} {x : EStateM ε Context α}
    (hx : Scripted setting x) (c : Context) : c.Frame (ending (x c)) := by
  obtain ⟨edits, result, -, hrun, -⟩ := hx c c rfl
  have hend : ending (x c) = Edit.applyAll setting edits c := by
    rw [hrun]
    cases result <;> rfl
  rw [hend]
  exact .applyAll setting edits c

/-- **What a script can never touch.** Run over a data block, also when the block is closed behind
it, or at every address of a pattern block, and ending well or with an error at any point, a program
leaves the first address of the block, the comments in effect, the finished lines, the pending
directives other than plain comments and the recorded references as they were. -/
theorem run_frame (setting : Setting) (program : String) (c : Context) :
    c.Frame (ending (run setting program c)) ∧
      c.Frame ((ending (run setting program c)).finish setting) ∧
      c.Frame (ending (runPattern setting program c)) := by
  have hrun := (scripted_run setting program).frame c
  exact ⟨hrun, hrun.trans (.finish setting _), (scripted_runPattern setting program).frame c⟩

end Script
end Disassembly
