/-
# What a stop of the walk does

At a stop the walk takes up directives one by one. Most of them change the state of the walk alone:
they are dropped, change the scope or bring a comment into effect (`adopt`). `TakesUp` says that a
state comes from another in this way, without the bound on steps that makes the walk a function. A
stop ends when no directive is left, or when a block is run (`takeUp_cases`). If there are no blocks
it always ends in the first way, with an instruction that is decoded (`step_of_noBlocks`).
-/

import Disassembly.Proofs.Listing.Comments
import Disassembly.Proofs.Overlay.Taking
import Disassembly.Proofs.Script.Action
import Disassembly.Proofs.Script.Lines
import Disassembly.Walk

namespace Disassembly
namespace Walk

variable {m : Machine} {cursor : Nat} {w w' : Walk} {d : Directive} {o : Overlay}

/-- Whether the directive runs a script. -/
def isBlock (d : Directive) : Bool :=
  match d.annotation with
  | .dataBlock _ | .patternBlock _ => true
  | _ => false

/-- The walk with a directive in effect that runs no script. One that has ended has none. -/
def adopt (cursor : Nat) (d : Directive) (w : Walk) : Walk :=
  if d.last.toNat < cursor then w
  else match d.annotation with
    | .format change => { w with scopes := w.scopes.push d.last change }
    | .reference .. | .displacement .. => { w with overlay := w.overlay.activate d }
    | _ => w

/-- With no directive to take, taking up is over. -/
theorem takeUp_none (h : w.overlay.takeActive cursor = none) (steps : Nat) :
    takeUp m cursor steps w = .ok (.settled, w) := by
  cases steps with
  | zero => rfl
  | succ steps => rw [takeUp, h]

/-- A directive that runs no script is adopted. -/
theorem takeUp_quiet (taken : w.overlay.takeActive cursor = some (d, o))
    (quiet : d.last.toNat < cursor ∨ isBlock d = false) (steps : Nat) :
    takeUp m cursor (steps + 1) w =
      takeUp m cursor steps (adopt cursor d { w with overlay := o }) := by
  rw [takeUp, taken]
  simp only [adopt]
  split
  · rfl
  · rename_i hlast
    have hblock := quiet.resolve_left hlast
    unfold isBlock at hblock
    cases ha : d.annotation <;> simp_all

/-- A data block that has not ended is rendered. -/
theorem takeUp_dataBlock {program : String} (taken : w.overlay.takeActive cursor = some (d, o))
    (hlast : cursor ≤ d.last.toNat) (ha : d.annotation = .dataBlock program) (steps : Nat) :
    takeUp m cursor (steps + 1) w =
      (Walk.dataBlock m { w with overlay := o } cursor d.last program).map
        fun (next, w) => (.resumeAt next, w) := by
  rw [takeUp, taken]
  simp only [Nat.not_lt.2 hlast, if_false, ha]

/-- A pattern block that has not ended is searched. -/
theorem takeUp_patternBlock {program : String} (taken : w.overlay.takeActive cursor = some (d, o))
    (hlast : cursor ≤ d.last.toNat) (ha : d.annotation = .patternBlock program) (steps : Nat) :
    takeUp m cursor (steps + 1) w =
      (Walk.patternBlock m { w with overlay := o } cursor d.last program).map
        fun w => (.searched, w) := by
  rw [takeUp, taken]
  simp only [Nat.not_lt.2 hlast, if_false, ha]

/-- A directive runs no script at the cursor, or it is a block that has not ended. -/
theorem quiet_or_block (cursor : Nat) (d : Directive) :
    (d.last.toNat < cursor ∨ isBlock d = false) ∨ cursor ≤ d.last.toNat ∧
      ∃ program, d.annotation = .dataBlock program ∨ d.annotation = .patternBlock program := by
  by_cases hlast : d.last.toNat < cursor
  · exact .inl (.inl hlast)
  · cases ha : d.annotation with
    | dataBlock program => exact .inr ⟨by omega, program, .inl rfl⟩
    | patternBlock program => exact .inr ⟨by omega, program, .inr rfl⟩
    | _ => exact .inl (.inr (by rw [isBlock, ha]))

/-- Adopting a directive adds nothing to what is pending. -/
@[simp] theorem adopt_pending (cursor : Nat) (d : Directive) (w : Walk) :
    (adopt cursor d w).overlay.pending = w.overlay.pending := by
  unfold adopt
  repeat' split
  all_goals rfl

/-- A directive that is taken up leaves one step fewer to take. -/
theorem length_pending_adopt {steps : Nat} (taken : w.overlay.takeActive cursor = some (d, o))
    (hsteps : w.overlay.pending.length ≤ steps + 1) :
    (adopt cursor d { w with overlay := o }).overlay.pending.length ≤ steps := by
  have hlen := (Overlay.takeActive_sublist taken).2.2.1
  rw [adopt_pending]
  change o.pending.length ≤ steps
  omega

@[simp] theorem adopt_lines (cursor : Nat) (d : Directive) (w : Walk) :
    (adopt cursor d w).lines = w.lines := by
  unfold adopt
  repeat' split
  all_goals rfl

@[simp] theorem adopt_references (cursor : Nat) (d : Directive) (w : Walk) :
    (adopt cursor d w).references = w.references := by
  unfold adopt
  repeat' split
  all_goals rfl

/-- The scopes after adopting a directive depend on the scopes before. -/
theorem adopt_scopes_congr (cursor : Nat) (d : Directive) (h : w.scopes = w'.scopes) :
    (adopt cursor d w).scopes = (adopt cursor d w').scopes := by
  unfold adopt
  repeat' split
  all_goals simp only [h]

/-- One state of the walk comes from another by taking up directives that run no script. -/
inductive TakesUp (cursor : Nat) : Walk → Walk → Prop
  | refl (w : Walk) : TakesUp cursor w w
  | head {w w' : Walk} {d : Directive} {o : Overlay}
      (taken : w.overlay.takeActive cursor = some (d, o))
      (quiet : d.last.toNat < cursor ∨ isBlock d = false)
      (rest : TakesUp cursor (adopt cursor d { w with overlay := o }) w') : TakesUp cursor w w'

/-- **What can end a stop.** Directives are taken up until none is left that has started, or up to a
block that has not ended, which is run. -/
def StopsWith (m : Machine) (cursor : Nat) (w : Walk) : Stop × Walk → Prop
  | (.settled, w') => TakesUp cursor w w' ∧ w'.overlay.takeActive cursor = none
  | (.resumeAt next, w') => ∃ u d o program, TakesUp cursor w u ∧
      u.overlay.takeActive cursor = some (d, o) ∧ cursor ≤ d.last.toNat ∧
      d.annotation = .dataBlock program ∧
      Walk.dataBlock m { u with overlay := o } cursor d.last program = .ok (next, w')
  | (.searched, w') => ∃ u d o program, TakesUp cursor w u ∧
      u.overlay.takeActive cursor = some (d, o) ∧ cursor ≤ d.last.toNat ∧
      d.annotation = .patternBlock program ∧
      Walk.patternBlock m { u with overlay := o } cursor d.last program = .ok w'

/-- A stop after one more directive ends as the rest of it does. -/
theorem StopsWith.head {r : Stop × Walk} (taken : w.overlay.takeActive cursor = some (d, o))
    (quiet : d.last.toNat < cursor ∨ isBlock d = false)
    (h : StopsWith m cursor (adopt cursor d { w with overlay := o }) r) :
    StopsWith m cursor w r := by
  match r, h with
  | (.settled, _), ⟨hu, hnone⟩ => exact ⟨.head taken quiet hu, hnone⟩
  | (.resumeAt _, _), ⟨u, d', o', program, hu, hrest⟩ =>
    exact ⟨u, d', o', program, .head taken quiet hu, hrest⟩
  | (.searched, _), ⟨u, d', o', program, hu, hrest⟩ =>
    exact ⟨u, d', o', program, .head taken quiet hu, hrest⟩

/-- **Taking up directives ends in one of these ways**, if there are enough steps for all of them.
-/
theorem takeUp_cases {r : Stop × Walk} :
    ∀ (steps : Nat) (w : Walk), w.overlay.pending.length ≤ steps →
      takeUp m cursor steps w = .ok r → StopsWith m cursor w r := by
  intro steps
  induction steps with
  | zero =>
    intro w hsteps h
    obtain rfl := Except.ok.inj h
    exact ⟨.refl w, Overlay.takeActive_of_length hsteps⟩
  | succ steps ih =>
    intro w hsteps h
    cases taken : w.overlay.takeActive cursor with
    | none =>
      rw [takeUp_none taken] at h
      obtain rfl := Except.ok.inj h
      exact ⟨.refl w, taken⟩
    | some p =>
      obtain ⟨d, o⟩ := p
      rcases quiet_or_block cursor d with quiet | ⟨hlast, program, ha | ha⟩
      · rw [takeUp_quiet taken quiet] at h
        exact .head taken quiet (ih _ (length_pending_adopt taken hsteps) h)
      · rw [takeUp_dataBlock taken hlast ha] at h
        obtain ⟨⟨next, w'⟩, hrun, rfl⟩ := exists_ok_of_map h
        exact ⟨w, d, o, program, .refl w, taken, hlast, ha, hrun⟩
      · rw [takeUp_patternBlock taken hlast ha] at h
        obtain ⟨w', hrun, rfl⟩ := exists_ok_of_map h
        exact ⟨w, d, o, program, .refl w, taken, hlast, ha, hrun⟩

/-- Taking up directives that run no script writes no lines. -/
theorem TakesUp.lines_eq (h : TakesUp cursor w w') : w'.lines = w.lines := by
  induction h with
  | refl => rfl
  | head taken quiet rest ih => rw [ih, adopt_lines]

/-- Taking up directives that run no script leaves the others as they are. -/
theorem TakesUp.pending_sublist (h : TakesUp cursor w w') :
    w'.overlay.pending.Sublist w.overlay.pending := by
  induction h with
  | refl => exact List.Sublist.refl _
  | head taken quiet rest ih =>
    rw [adopt_pending] at ih
    exact ih.trans (Overlay.takeActive_sublist taken).2.1

/-! ### Stops without blocks -/

/-- Directives that run no script. -/
def NoBlocks (ds : List Directive) : Prop := ∀ d ∈ ds, isBlock d = false

theorem NoBlocks.sublist {ds ds' : List Directive} (h : NoBlocks ds) (hs : ds'.Sublist ds) :
    NoBlocks ds' :=
  fun d hd => h d (hs.subset hd)

/-- Without blocks, taking up directives ends when none is left. -/
theorem takeUp_of_noBlocks (m : Machine) (cursor : Nat) :
    ∀ (steps : Nat) (w : Walk), w.overlay.pending.length ≤ steps → NoBlocks w.overlay.pending →
      ∃ u, takeUp m cursor steps w = .ok (.settled, u) ∧ TakesUp cursor w u ∧
        u.overlay.takeActive cursor = none := by
  intro steps
  induction steps with
  | zero =>
    intro w hsteps _
    exact ⟨w, rfl, .refl w, Overlay.takeActive_of_length hsteps⟩
  | succ steps ih =>
    intro w hsteps hblocks
    cases taken : w.overlay.takeActive cursor with
    | none => exact ⟨w, takeUp_none taken _, .refl w, taken⟩
    | some p =>
      obtain ⟨d, o⟩ := p
      obtain ⟨hmem, hsublist, -, -⟩ := Overlay.takeActive_sublist taken
      have quiet : d.last.toNat < cursor ∨ isBlock d = false := .inr (hblocks d hmem)
      obtain ⟨u, hu, htakes, hnone⟩ := ih (adopt cursor d { w with overlay := o })
        (length_pending_adopt taken hsteps)
        (by rw [adopt_pending]; exact hblocks.sublist hsublist)
      exact ⟨u, (takeUp_quiet taken quiet steps).trans hu, .head taken quiet htakes, hnone⟩

/-- **A stop without blocks takes up what has started and decodes an instruction.** -/
theorem step_of_noBlocks (m : Machine) (cursor : Nat) (hblocks : NoBlocks w.overlay.pending) :
    ∃ u, TakesUp cursor (w.expire cursor) u ∧ u.overlay.takeActive cursor = none ∧
      w.step m cursor = u.decodeLine m cursor := by
  obtain ⟨u, hu, htakes, hnone⟩ :=
    takeUp_of_noBlocks m cursor _ (w.expire cursor) (Nat.le_refl _) hblocks
  exact ⟨u, htakes, hnone, by rw [step, activate, hu]⟩

/-! ### Lines without their comments -/

/-- The line that an instruction adds is its line, and comments. -/
theorem bare_codeLine (i : Z80.Instruction) (bytes : List UInt8) (scope : Scope) (cursor : Nat)
    (comments : List Overlay.Comment) :
    (if scope.comments then (codeLine i bytes scope cursor).attachAll comments
      else codeLine i bytes scope cursor).bare = codeLine i bytes scope cursor := by
  rw [Line.bare_shown]
  rfl

/-- An instruction adds its line. -/
theorem addCode_lines (w : Walk) (i : Z80.Instruction) (bytes : List UInt8) (cursor : Nat) :
    ∃ line, (w.addCode i bytes cursor).lines.toList = w.lines.toList ++ [line] ∧
      line.bare = codeLine i bytes w.scope cursor :=
  ⟨_, Array.toList_push, bare_codeLine i bytes w.scope cursor _⟩

end Walk
end Disassembly
