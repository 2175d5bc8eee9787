/-
# Comments have no influence

Comments are pending together with the directives that take part in the disassembly, scripts add
some and every line takes some away. Still they decide nothing: two walks whose directives agree
apart from comments go through the same stops, end in the same way and write the same lines, apart
from the comments on them (`walk_congr_comments`). The walks stay alike at every step; one may take
up a comment where the other does not, and goes on to the next directive.
-/

import Disassembly.Proofs.Overlay.Comments
import Disassembly.Proofs.Walk.Lockstep

namespace Disassembly

/-- Whether overlays agree apart from comments, and so do the lines written so far. -/
structure ButComments (o : Overlay) (lines : List Line) (o' : Overlay) (lines' : List Line) : Prop
    where
  overlay : o.Alike o'
  lines : lines.map Line.bare = lines'.map Line.bare

/-- **Scripts keep what agrees apart from comments**, whichever comments they take. -/
theorem lockstep_butComments : Lockstep ButComments where
  append h more := ⟨h.overlay, by rw [List.map_append, List.map_append, h.lines]⟩
  insert h d := ⟨h.overlay.insert d, h.lines⟩
  takeComments h first last shown line more := by
    refine ⟨h.overlay.takeComments first last, ?_⟩
    rw [List.map_append, List.map_append, h.lines, List.map_singleton, List.map_singleton,
      Line.bare_shown, Line.bare_shown]
  dropComments h first last := ⟨h.overlay.takeComments first last, h.lines⟩

namespace Walk

/-- Whether two walks agree apart from comments. -/
abbrev Alike (w w' : Walk) : Prop := Paired ButComments w w'

variable {m : Machine} {cursor : Nat} {w w' : Walk}

theorem Alike.symm (h : Alike w w') : Alike w' w :=
  ⟨h.scopes.symm, h.references.symm, h.overlay.overlay.symm, h.overlay.lines.symm⟩

theorem SameEnd.symm_alike {α : Type} {r r' : Except Script.Error (α × Walk)}
    (h : SameEnd (SameNext Alike) r r') : SameEnd (SameNext Alike) r' r :=
  h.symm fun _ _ hnext => ⟨hnext.1.symm, hnext.2.symm⟩

/-- The line of an instruction is added alike to walks that are alike. -/
theorem Alike.addCode (h : Alike w w') (i : Z80.Instruction) (bytes : List UInt8) :
    Alike (w.addCode i bytes cursor) (w'.addCode i bytes cursor) := by
  have hscope := h.scope_eq
  refine ⟨h.scopes, ?_, h.overlay.overlay.takeComments cursor (cursor + i.length - 1), ?_⟩
  · simp only [Walk.addCode, hscope, h.references]
  · simp only [Walk.addCode, Array.toList_push, List.map_append, List.map_cons, List.map_nil,
      h.overlay.lines, Line.bare_shown, hscope]

variable {d : Directive} {o o' : Overlay}

/-- Walks with the same directive in effect are alike if they were before. -/
theorem Alike.adopt (h : Alike w w') (d : Directive) :
    Alike (adopt cursor d w) (adopt cursor d w') :=
  h.adopt_of d ⟨h.overlay.overlay.of_pending (adopt_pending cursor d w) (adopt_pending cursor d w'),
    h.overlay.lines⟩

/-- A walk with a comment in effect is alike to the walk without it. -/
theorem Alike.adopt_comment (h : Alike w w') (hd : d.isComment = true) :
    Alike (Walk.adopt cursor d w) w' := by
  refine ⟨?_, ?_, h.overlay.overlay.of_pending (adopt_pending cursor d w) rfl, ?_⟩
  · rw [← h.scopes]
    unfold Walk.adopt
    unfold Directive.isComment at hd
    split
    · rfl
    · cases ha : d.annotation <;> simp [ha] at hd ⊢
  · rw [adopt_references, h.references]
  · rw [adopt_lines, h.overlay.lines]

/-- A comment runs no script. -/
theorem isBlock_of_isComment (h : d.isComment = true) : isBlock d = false := by
  unfold Directive.isComment at h
  unfold isBlock
  cases ha : d.annotation <;> simp [ha] at h ⊢

/-- Directives are taken up alike in walks that are alike, if there are enough steps for all of them
and no more than `total` steps in both walks. -/
def TakeUpAlike (m : Machine) (cursor total : Nat) : Prop :=
  ∀ {steps steps' : Nat} {w w' : Walk}, steps + steps' ≤ total →
    w.overlay.pending.length ≤ steps → w'.overlay.pending.length ≤ steps' → Alike w w' →
    SameEnd (SameNext Alike) (takeUp m cursor steps w) (takeUp m cursor steps' w')

namespace TakeUpAlike

variable {total steps steps' : Nat}

/-- One of the walks may have a comment to take up first. -/
theorem skip (ih : TakeUpAlike m cursor total) (htotal : steps + steps' ≤ total + 1)
    (hsteps : w.overlay.pending.length ≤ steps) (hsteps' : w'.overlay.pending.length ≤ steps')
    (h : Alike w w') (taken : w.overlay.takeActive cursor = some (d, o))
    (hd : d.isComment = true) :
    SameEnd (SameNext Alike) (takeUp m cursor steps w) (takeUp m cursor steps' w') := by
  have hlen := (Overlay.takeActive_sublist taken).2.2.1
  obtain ⟨steps, rfl⟩ := Nat.exists_eq_add_one_of_ne_zero (by omega : steps ≠ 0)
  rw [takeUp_quiet taken (.inr (isBlock_of_isComment hd))]
  refine ih (by omega) (length_pending_adopt taken hsteps) hsteps' (Alike.adopt_comment ?_ hd)
  exact ⟨h.scopes, h.references, h.overlay.overlay.takeComment taken hd, h.overlay.lines⟩

/-- Otherwise both walks take up the same directive. -/
theorem both (ih : TakeUpAlike m cursor total) (htotal : steps + steps' ≤ total + 1)
    (hsteps : w.overlay.pending.length ≤ steps) (hsteps' : w'.overlay.pending.length ≤ steps')
    (h : Alike w w') (taken : w.overlay.takeActive cursor = some (d, o))
    (taken' : w'.overlay.takeActive cursor = some (d, o')) (ho : o.Alike o') :
    SameEnd (SameNext Alike) (takeUp m cursor steps w) (takeUp m cursor steps' w') := by
  have hrest : Alike { w with overlay := o } { w' with overlay := o' } :=
    ⟨h.scopes, h.references, ho, h.overlay.lines⟩
  have hlen := (Overlay.takeActive_sublist taken).2.2.1
  have hlen' := (Overlay.takeActive_sublist taken').2.2.1
  obtain ⟨steps, rfl⟩ := Nat.exists_eq_add_one_of_ne_zero (by omega : steps ≠ 0)
  obtain ⟨steps', rfl⟩ := Nat.exists_eq_add_one_of_ne_zero (by omega : steps' ≠ 0)
  exact hrest.takeUp_both lockstep_butComments taken taken'
    (ih (by omega) (length_pending_adopt taken hsteps) (length_pending_adopt taken' hsteps')
      (Alike.adopt hrest d))

end TakeUpAlike

/-- **Directives are taken up alike in walks that are alike.** One of the walks may have to take up
comments first, so the induction is on the steps of both. -/
theorem takeUpAlike (m : Machine) (cursor total : Nat) : TakeUpAlike m cursor total := by
  induction total with
  | zero =>
    intro steps steps' w w' htotal _ _ h
    obtain rfl : steps = 0 := by omega
    obtain rfl : steps' = 0 := by omega
    exact .ok ⟨rfl, h⟩
  | succ total ih =>
    intro steps steps' w w' htotal hsteps hsteps' h
    cases taken : w.overlay.takeActive cursor with
    | none =>
      cases taken' : w'.overlay.takeActive cursor with
      | none =>
        rw [takeUp_none taken, takeUp_none taken']
        exact .ok ⟨rfl, h⟩
      | some r =>
        obtain ⟨d, o⟩ := r
        cases hd : d.isComment with
        | true => exact (ih.skip (by omega) hsteps' hsteps h.symm taken' hd).symm_alike
        | false =>
          obtain ⟨e, p, hsome, -⟩ := h.overlay.overlay.symm.takeActive taken' hd
          exact absurd (taken.symm.trans hsome) (by simp)
    | some r =>
      obtain ⟨d, o⟩ := r
      cases hd : d.isComment with
      | true => exact ih.skip htotal hsteps hsteps' h taken hd
      | false =>
        obtain ⟨e, o', taken', he | ⟨rfl, ho⟩⟩ := h.overlay.overlay.takeActive taken hd
        · exact (ih.skip (by omega) hsteps' hsteps h.symm taken' he).symm_alike
        · exact ih.both htotal hsteps hsteps' h taken taken' ho

/-- Walks that are alike have as many pattern blocks to search. -/
theorem Alike.countP_isPattern (h : Alike w w') :
    w.overlay.pending.countP isPattern = w'.overlay.pending.countP isPattern := by
  have hcount (ds : List Directive) :
      ds.countP isPattern = (ds.filter fun d => !d.isComment).countP isPattern := by
    rw [List.countP_filter]
    refine List.countP_congr fun d _ => ?_
    unfold isPattern Directive.isComment
    cases d.annotation <;> simp
  rw [hcount, hcount w'.overlay.pending]
  exact congrArg (List.countP isPattern) h.overlay.overlay

/-- **Walks that are alike go through the same stops.** -/
theorem simulates_alike (m : Machine) : Simulates m Alike where
  expire h cursor := ⟨congrArg (·.expire cursor) h.scopes, h.references,
    h.overlay.overlay.of_pending rfl rfl, h.overlay.lines⟩
  patterns h := h.countP_isPattern
  takeUp h cursor :=
    takeUpAlike m cursor _ (Nat.le_refl _) (Nat.le_refl _) (Nat.le_refl _) h
  decodeLine h _ := h.decodeLine lockstep_butComments h.addCode

/-- What a walk shows apart from comments: its lines without them, and the addresses referred to. -/
def shown (w : Walk) : List Line × Std.TreeSet UInt16 :=
  (w.lines.toList.map Line.bare, w.references)

/-- **Comments never influence what is disassembled.** Lists of directives that agree apart from
comments, such as a list and the same list with any of its comments removed, make the walk report
the same progress and end in the same way: with the same error, or with the same lines but for the
comments on them and the same addresses referred to. -/
theorem walk_congr_comments (m : Machine) (base : Scope) (p : Progress) {ds ds' : List Directive}
    (h : ds.filter (fun d => !d.isComment) = ds'.filter fun d => !d.isComment) :
    (walk m (start base ds) p).1 = (walk m (start base ds') p).1 ∧
      (walk m (start base ds) p).2.map shown = (walk m (start base ds') p).2.map shown := by
  have hstart : Alike (start base ds) (start base ds') := ⟨rfl, rfl, Overlay.alike_ofList h, rfl⟩
  obtain ⟨hprogress, hend⟩ := (simulates_alike m).walk hstart p
  exact ⟨hprogress, hend.map_eq fun w w' hw => Prod.ext hw.overlay.lines hw.references⟩

/-- Two comments, one on an operand and one before a block, change nothing but comments. -/
theorem walk_congr_comments_sample :
    let m : Machine := ⟨⟨#[0x3A, 0x05, 0x80, 0x12, 0xC9], 0, 0x8000, 5, by decide, by decide⟩,
      Spectrum.charset, Spectrum.floats⟩
    let block : Directive := ⟨0x8003, 0x8003, .dataBlock Preset.rawBytes⟩
    let value : Directive := ⟨0x8000, 0xFFFF, .reference .endOfLine .both 0x8005 "counter"⟩
    let title : Directive := ⟨0x8003, 0x8003, .comment .before "table"⟩
    (walk m (start {} [title, block, value]) { total := 10 }).2.map shown =
      (walk m (start {} [block]) { total := 10 }).2.map shown := by
  intro m block value title
  have hsame : [title, block, value].filter (fun d => !d.isComment) =
      [block].filter fun d => !d.isComment := rfl
  exact (walk_congr_comments m {} { total := 10 } hsame).2

end Walk
end Disassembly
