/-
# Walks in step

Two walks go through the same stops as long as their overlays give them the same directives, and
what else tells the overlays apart stays hidden. `Lockstep` says of a relation between overlays, each
with the lines written so far, that inserting directives and taking comments keep it. Scripts use an
overlay in no other way, so they have the same results on both sides and keep the relation
(`Context.Paired.scripted`), and so do blocks. A relation of walks that every part of a stop keeps is
kept by whole walks, which report the same progress and end in the same way (`Simulates.walk`); and
so are walks whose overlays give them the same directives (`simulates_paired`).
-/

import Disassembly.Proofs.Overlay.Keys
import Disassembly.Proofs.Script.Scripted
import Disassembly.Proofs.Walk.Steps

namespace Disassembly

/-- **A relation of overlays, with the lines written so far, that scripts keep.** -/
structure Lockstep (Rel : Overlay → List Line → Overlay → List Line → Prop) : Prop where
  append {o o' : Overlay} {lines lines' : List Line} (h : Rel o lines o' lines')
    (more : List Line) : Rel o (lines ++ more) o' (lines' ++ more)
  insert {o o' : Overlay} {lines lines' : List Line} (h : Rel o lines o' lines') (d : Directive) :
    Rel (o.insert d) lines (o'.insert d) lines'
  /-- A line takes its comments, and shows them or not. -/
  takeComments {o o' : Overlay} {lines lines' : List Line} (h : Rel o lines o' lines')
    (first last : Nat) (shown : Bool) (line : Line) (more : List Overlay.Comment) :
    Rel (o.takeComments first last).2
      (lines ++ [if shown then line.attachAll ((o.takeComments first last).1 ++ more) else line])
      (o'.takeComments first last).2
      (lines' ++
        [if shown then line.attachAll ((o'.takeComments first last).1 ++ more) else line])
  /-- Comments are taken for a line that is given up. -/
  dropComments {o o' : Overlay} {lines lines' : List Line} (h : Rel o lines o' lines')
    (first last : Nat) :
    Rel (o.takeComments first last).2 lines (o'.takeComments first last).2 lines'

variable {Rel : Overlay → List Line → Overlay → List Line → Prop}

/-- Lines that are given up can be left out of account. -/
theorem Lockstep.forget (hrel : Lockstep Rel) (lines lines' : List Line) :
    Lockstep fun o _ o' _ => Rel o lines o' lines' where
  append h _ := h
  insert h := hrel.insert h
  takeComments h first last _ _ _ := hrel.dropComments h first last
  dropComments h := hrel.dropComments h

/-! ### Scripts -/

namespace Script

/-- Whether two contexts look the same, and their overlays are related behind the lines written
before. -/
structure Context.Paired (Rel : Overlay → List Line → Overlay → List Line → Prop)
    (lines lines' : List Line) (c c' : Context) : Prop where
  visible : c.visible = c'.visible
  references : c.references = c'.references
  overlay : Rel c.overlay (lines ++ c.lines.toList) c'.overlay (lines' ++ c'.lines.toList)

namespace Context.Paired

variable {lines lines' : List Line} {setting : Setting} {c c' : Context} (hrel : Lockstep Rel)

include hrel

/-- Ending a line is taking comments for the same range. -/
theorem endLine (h : Context.Paired Rel lines lines' c c') :
    Context.Paired Rel lines lines' (c.endLine setting) (c'.endLine setting) := by
  have hvisible : (c.endLine setting).visible = (c'.endLine setting).visible :=
    visible_applyAll setting [.endLine] h.visible
  have hline := eq_of_visible Context.line (fun _ => rfl) h.visible
  have hstart := eq_of_visible Context.lineStart (fun _ => rfl) h.visible
  have hoffset := eq_of_visible Context.lineOffset (fun _ => rfl) h.visible
  have hformat := eq_of_visible Context.format (fun _ => rfl) h.visible
  cases hopen : c.line with
  | none =>
    have hopen' : c'.line = none := hline ▸ hopen
    refine ⟨hvisible, ?_, ?_⟩ <;> unfold Context.endLine <;> rw [hopen, hopen']
    · exact h.references
    · exact h.overlay
  | some line =>
    have hopen' : c'.line = some line := hline ▸ hopen
    have htaken := hrel.append (hrel.takeComments h.overlay c.lineStart.toNat
      (c.lineStart.toNat + max c.lineOffset.toNat 1 - 1) setting.scope.comments
      { marker := some line.marker
        body := .data line.text
        lineAfter := setting.scope.lineAfterJump
        separator := setting.scope.separator }
      []) (List.replicate c.format.spacing Line.blank)
    refine ⟨hvisible, ?_, ?_⟩ <;> unfold Context.endLine <;> rw [hopen, hopen']
    · exact h.references
    · simp only [Context.nextLine, Array.toList_append, Array.toList_push, Array.toList_replicate,
        ← hstart, ← hoffset, ← hformat, ← List.append_assoc]
      simp only [List.append_nil] at htaken
      exact htaken

/-- **Every edit keeps contexts paired.** -/
theorem apply (h : Context.Paired Rel lines lines' c c') (e : Edit) :
    Context.Paired Rel lines lines' (e.apply setting c) (e.apply setting c') := by
  have hvisible : (e.apply setting c).visible = (e.apply setting c').visible :=
    visible_applyAll setting [e] h.visible
  by_cases hlocal : e.isLocal = true
  · obtain ⟨hlines, hoverlay, hreferences⟩ := Edit.apply_of_isLocal setting c hlocal
    obtain ⟨hlines', hoverlay', hreferences'⟩ := Edit.apply_of_isLocal setting c' hlocal
    refine ⟨hvisible, ?_, ?_⟩
    · rw [hreferences, hreferences', h.references]
    · rw [hlines, hlines', hoverlay, hoverlay']
      exact h.overlay
  · cases e with
    | endLine => exact h.endLine hrel
    | insert d addable => exact ⟨hvisible, h.references, hrel.insert h.overlay d⟩
    | recordReference address =>
      exact ⟨hvisible, congrArg (·.insert address) h.references, h.overlay⟩
    | _ => exact absurd rfl hlocal

theorem applyAll (h : Context.Paired Rel lines lines' c c') (edits : List Edit) :
    Context.Paired Rel lines lines' (Edit.applyAll setting edits c)
      (Edit.applyAll setting edits c') := by
  induction edits generalizing c c' with
  | nil => exact h
  | cons e edits ih => exact ih (h.apply hrel e)

/-- **A script has the same result in both contexts**, and leaves them paired. -/
theorem scripted {ε α : Type} {x : EStateM ε Context α} (hx : Scripted setting x)
    (h : Context.Paired Rel lines lines' c c') :
    ∃ e e' result, x c = outcome e result ∧ x c' = outcome e' result ∧
      Context.Paired Rel lines lines' e e' := by
  obtain ⟨edits, result, -, hc, hc'⟩ := hx c c' h.visible
  exact ⟨_, _, result, hc, hc', h.applyAll hrel edits⟩

/-- Ending the last line leaves contexts paired. -/
theorem finish (h : Context.Paired Rel lines lines' c c') :
    Context.Paired Rel lines lines' (c.finish setting) (c'.finish setting) := by
  have hline := eq_of_visible Context.line (fun _ => rfl) h.visible
  unfold Context.finish
  rw [hline]
  split
  · exact h.endLine hrel
  · exact h

end Context.Paired
end Script

namespace Walk

open Script

/-! ### Parts of walks that end in the same way -/

/-- Two parts of walks fail with the same error, or have results that are alike. -/
inductive SameEnd {α : Type} (alike : α → α → Prop) : Except Error α → Except Error α → Prop
  | ok {a a' : α} (h : alike a a') : SameEnd alike (.ok a) (.ok a')
  | error (e : Error) : SameEnd alike (.error e) (.error e)

/-- Whether two results of a part of the walk go on at the same place with walks that are alike. -/
def SameNext {α : Type} (alike : Walk → Walk → Prop) (r r' : α × Walk) : Prop :=
  r.1 = r'.1 ∧ alike r.2 r'.2

namespace SameEnd

variable {α β : Type} {alike : α → α → Prop} {r r' : Except Error α}

/-- Results that are alike are used alike. -/
theorem map {alike' : β → β → Prop} {f : α → β} (h : SameEnd alike r r')
    (hf : ∀ a a', alike a a' → alike' (f a) (f a')) : SameEnd alike' (r.map f) (r'.map f) := by
  cases h with
  | ok h => exact .ok (hf _ _ h)
  | error e => exact .error e

/-- Results that are alike in one way may be alike in another. -/
theorem mono {alike' : α → α → Prop} (h : SameEnd alike r r')
    (himp : ∀ a a', alike a a' → alike' a a') : SameEnd alike' r r' := by
  cases h with
  | ok h => exact .ok (himp _ _ h)
  | error e => exact .error e

theorem symm (h : SameEnd alike r r') (hsymm : ∀ a a', alike a a' → alike a' a) :
    SameEnd alike r' r := by
  cases h with
  | ok h => exact .ok (hsymm _ _ h)
  | error e => exact .error e

/-- What is the same of results that are alike is the same of both ends. -/
theorem map_eq {f : α → β} (h : SameEnd alike r r') (hf : ∀ a a', alike a a' → f a = f a') :
    r.map f = r'.map f := by
  cases h with
  | ok h => exact congrArg Except.ok (hf _ _ h)
  | error e => rfl

/-- Parts of walks that end in the same way both fail, or both go on at the same place. -/
theorem cases {alike : Walk → Walk → Prop} {r r' : Except Error (α × Walk)}
    (h : SameEnd (SameNext alike) r r') :
    (∃ e, r = .error e ∧ r' = .error e) ∨
      ∃ a u u', r = .ok (a, u) ∧ r' = .ok (a, u') ∧ alike u u' := by
  cases h with
  | error e => exact .inl ⟨e, rfl, rfl⟩
  | @ok p p' hp =>
    obtain ⟨a, u⟩ := p
    obtain ⟨a', u'⟩ := p'
    obtain ⟨rfl, hu⟩ : a = a' ∧ alike u u' := hp
    exact .inr ⟨a, u, u', rfl, rfl, hu⟩

end SameEnd

variable {m : Machine} {cursor : Nat} {w w' : Walk}

/-! ### Whole walks -/

/-- **A relation of walks that every part of a stop keeps.** -/
structure Simulates (m : Machine) (alike : Walk → Walk → Prop) : Prop where
  expire {w w' : Walk} (h : alike w w') (cursor : Nat) : alike (w.expire cursor) (w'.expire cursor)
  /-- As many pattern blocks are pending. -/
  patterns {w w' : Walk} (h : alike w w') :
    w.overlay.pending.countP isPattern = w'.overlay.pending.countP isPattern
  takeUp {w w' : Walk} (h : alike w w') (cursor : Nat) :
    SameEnd (SameNext alike) (takeUp m cursor w.overlay.pending.length w)
      (takeUp m cursor w'.overlay.pending.length w')
  decodeLine {w w' : Walk} (h : alike w w') (cursor : Nat) :
    SameEnd (SameNext alike) (w.decodeLine m cursor) (w'.decodeLine m cursor)

namespace Simulates

variable {alike : Walk → Walk → Prop} (hsim : Simulates m alike)

include hsim

/-- Pattern blocks are searched until none is left, in the same way. -/
theorem activate (h : alike w w') (cursor searches : Nat) :
    SameEnd (SameNext alike) (activate m cursor searches w) (activate m cursor searches w') := by
  induction searches generalizing w w' with
  | zero => exact .ok ⟨rfl, h⟩
  | succ searches ih =>
    unfold Walk.activate
    obtain ⟨e, hr, hr'⟩ | ⟨stop, u, u', hr, hr', hu⟩ := (hsim.takeUp h cursor).cases
    · rw [hr, hr']
      exact .error e
    · rw [hr, hr']
      cases stop with
      | settled => exact .ok ⟨rfl, hu⟩
      | resumeAt next => exact .ok ⟨rfl, hu⟩
      | searched => exact ih hu

/-- **A stop ends in the same way.** -/
theorem step (h : alike w w') (cursor : Nat) :
    SameEnd (SameNext alike) (w.step m cursor) (w'.step m cursor) := by
  have hexpire := hsim.expire h cursor
  have hactive := hsim.activate hexpire cursor
    ((w'.expire cursor).overlay.pending.countP isPattern + 1)
  unfold Walk.step
  simp only [hsim.patterns hexpire]
  obtain ⟨e, hr, hr'⟩ | ⟨found, u, u', hr, hr', hu⟩ := hactive.cases
  · rw [hr, hr']
    exact .error e
  · rw [hr, hr']
    cases found with
    | some next => exact .ok ⟨rfl, hu⟩
    | none => exact hsim.decodeLine hu cursor

/-- Walks go through the same stops from the same place. -/
theorem walkFrom (h : alike w w') (steps cursor : Nat) (p : Progress) :
    (walkFrom m steps cursor w p).1 = (walkFrom m steps cursor w' p).1 ∧
      SameEnd alike (walkFrom m steps cursor w p).2 (walkFrom m steps cursor w' p).2 := by
  induction steps generalizing cursor w w' p with
  | zero => exact ⟨rfl, .ok h⟩
  | succ steps ih =>
    unfold Walk.walkFrom
    split
    · obtain ⟨e, hr, hr'⟩ | ⟨next, u, u', hr, hr', hu⟩ := (hsim.step h cursor).cases
      · simp only [hr, hr']
        exact ⟨trivial, .error e⟩
      · simp only [hr, hr']
        exact ih hu next _
    · exact ⟨rfl, .ok h⟩

/-- **Walks report the same progress and end in the same way.** -/
theorem walk (h : alike w w') (p : Progress) :
    (walk m w p).1 = (walk m w' p).1 ∧ SameEnd alike (walk m w p).2 (walk m w' p).2 :=
  hsim.walkFrom h m.image.length m.image.origin.toNat p

end Simulates

/-! ### Walks with related overlays -/

/-- Whether two walks agree apart from their overlays and lines, and these are related. -/
structure Paired (Rel : Overlay → List Line → Overlay → List Line → Prop) (w w' : Walk) : Prop where
  scopes : w.scopes = w'.scopes
  references : w.references = w'.references
  overlay : Rel w.overlay w.lines.toList w'.overlay w'.lines.toList

namespace Paired

theorem scope_eq (h : Paired Rel w w') : w.scope = w'.scope := by
  rw [scope, scope, h.scopes]

theorem setting_eq (h : Paired Rel w w') (m : Machine) : w.setting m = w'.setting m := by
  rw [setting, setting, h.scope_eq]

/-- Scripts see the same in walks that are paired. -/
theorem visible_context (h : Paired Rel w w') (m : Machine) (cursor : Nat) (last : UInt16) :
    (w.context m cursor last).visible = (w'.context m cursor last).visible := by
  unfold Walk.context
  rw [h.setting_eq]
  rfl

/-- Walks that take up a directive that runs no script stay paired if their overlays do. -/
theorem adopt_of (h : Paired Rel w w') (d : Directive)
    (hoverlay : Rel (adopt cursor d w).overlay w.lines.toList (adopt cursor d w').overlay
      w'.lines.toList) : Paired Rel (adopt cursor d w) (adopt cursor d w') := by
  refine ⟨adopt_scopes_congr cursor d h.scopes, ?_, ?_⟩
  · rw [adopt_references, adopt_references, h.references]
  · rw [adopt_lines, adopt_lines]
    exact hoverlay

section Blocks

variable (hrel : Lockstep Rel)

include hrel

/-- **A data block is rendered in the same way.** -/
theorem dataBlock (h : Paired Rel w w') (last : UInt16) (program : String) :
    SameEnd (SameNext (Paired Rel)) (w.dataBlock m cursor last program)
      (w'.dataBlock m cursor last program) := by
  have hstart : Context.Paired Rel w.lines.toList w'.lines.toList (w.context m cursor last)
      (w'.context m cursor last) := by
    have hlines (w : Walk) : w.lines.toList ++ (w.context m cursor last).lines.toList =
        w.lines.toList := List.append_nil _
    refine ⟨h.visible_context m cursor last, h.references, ?_⟩
    rw [hlines, hlines]
    exact h.overlay
  obtain ⟨c, c', result, hc, hc', hpaired⟩ :=
    hstart.scripted hrel (scripted_run (w'.setting m) program)
  unfold Walk.dataBlock
  rw [h.setting_eq, hc, hc']
  cases result with
  | error e => exact .error e
  | ok outcome =>
    have hresume := eq_of_visible Context.resume (fun _ => rfl) hpaired.visible
    have hfinish : Context.Paired Rel w.lines.toList w'.lines.toList
        (c.finish (w'.setting m)) (c'.finish (w'.setting m)) := hpaired.finish hrel
    refine .ok ⟨congrArg (max · (cursor + 1)) hresume, h.scopes, hfinish.references, ?_⟩
    simp only [Array.toList_append]
    exact hfinish.overlay

/-- **A pattern block is searched in the same way.** The lines of a search are given up, so the
overlays are related as they were with the lines before it. -/
theorem patternBlock (h : Paired Rel w w') (last : UInt16) (program : String) :
    SameEnd (Paired Rel) (w.patternBlock m cursor last program)
      (w'.patternBlock m cursor last program) := by
  have hstart : Context.Paired (fun o _ o' _ => Rel o w.lines.toList o' w'.lines.toList) [] []
      (w.context m cursor last) (w'.context m cursor last) :=
    ⟨h.visible_context m cursor last, h.references, h.overlay⟩
  obtain ⟨c, c', result, hc, hc', hpaired⟩ := hstart.scripted
    (hrel.forget w.lines.toList w'.lines.toList) (scripted_runPattern (w'.setting m) program)
  unfold Walk.patternBlock
  rw [h.setting_eq, hc, hc']
  cases result with
  | error e => exact .error e
  | ok matched => exact .ok ⟨h.scopes, hpaired.references, hpaired.overlay⟩

/-- **An instruction is decoded in the same way**, if its line is added in the same way. -/
theorem decodeLine (h : Paired Rel w w')
    (hcode : ∀ (i : Z80.Instruction) (bytes : List UInt8),
      Paired Rel (w.addCode i bytes cursor) (w'.addCode i bytes cursor)) :
    SameEnd (SameNext (Paired Rel)) (w.decodeLine m cursor) (w'.decodeLine m cursor) := by
  unfold Walk.decodeLine
  rw [h.scope_eq]
  cases hd : Z80.decode (m.image.windowUpTo cursor Z80.longest) (UInt16.ofNat cursor)
      w'.scope.numberBase with
  | error e =>
    simp only [hd]
    exact h.dataBlock hrel m.image.last Preset.rawBytes
  | ok i =>
    simp only [hd]
    exact .ok ⟨rfl, hcode i _⟩

/-- **The same directive is taken up in the same way**, if the rest is after one that runs no
script. -/
theorem takeUp_both {d : Directive} {o o' : Overlay} {steps steps' : Nat}
    (hrest : Paired Rel { w with overlay := o } { w' with overlay := o' })
    (taken : w.overlay.takeActive cursor = some (d, o))
    (taken' : w'.overlay.takeActive cursor = some (d, o'))
    (hquiet : SameEnd (SameNext (Paired Rel))
      (takeUp m cursor steps (adopt cursor d { w with overlay := o }))
      (takeUp m cursor steps' (adopt cursor d { w' with overlay := o' }))) :
    SameEnd (SameNext (Paired Rel)) (takeUp m cursor (steps + 1) w)
      (takeUp m cursor (steps' + 1) w') := by
  rcases quiet_or_block cursor d with quiet | ⟨hlast, program, hblock | hblock⟩
  · rw [takeUp_quiet taken quiet, takeUp_quiet taken' quiet]
    exact hquiet
  · rw [takeUp_dataBlock taken hlast hblock, takeUp_dataBlock taken' hlast hblock]
    exact (hrest.dataBlock hrel d.last program).map
      fun r r' hr => ⟨congrArg Stop.resumeAt hr.1, hr.2⟩
  · rw [takeUp_patternBlock taken hlast hblock, takeUp_patternBlock taken' hlast hblock]
    exact (hrest.patternBlock hrel d.last program).map fun w w' hw => ⟨rfl, hw⟩

end Blocks
end Paired
end Walk

/-! ### Overlays that give the same directives -/

/-- **A relation in which the same directives are taken**, and the same comments are in effect. -/
structure ExactLockstep (Rel : Overlay → List Line → Overlay → List Line → Prop) : Prop
    extends Lockstep Rel where
  live {o o' : Overlay} {lines lines' : List Line} (h : Rel o lines o' lines') : o.live = o'.live
  /-- As many pattern blocks are pending. -/
  patterns {o o' : Overlay} {lines lines' : List Line} (h : Rel o lines o' lines') :
    o.pending.countP Walk.isPattern = o'.pending.countP Walk.isPattern
  /-- What is in effect can be changed on both sides. -/
  of_pending {o o' p p' : Overlay} {lines lines' : List Line} (h : Rel o lines o' lines')
    (hp : p.pending = o.pending) (hp' : p'.pending = o'.pending) (hlive : p.live = p'.live) :
    Rel p lines p' lines'
  takeActive {o o' : Overlay} {lines lines' : List Line} (h : Rel o lines o' lines')
    (cursor : Nat) :
    (o.takeActive cursor = none ∧ o'.takeActive cursor = none) ∨
      ∃ d rest rest', o.takeActive cursor = some (d, rest) ∧
        o'.takeActive cursor = some (d, rest') ∧ Rel rest lines rest' lines'

namespace Walk

variable {m : Machine} {cursor : Nat} {w w' : Walk}

/-- The comments in effect after adopting a directive depend on those in effect before. -/
theorem adopt_live_congr (cursor : Nat) (d : Directive) (h : w.overlay.live = w'.overlay.live) :
    (adopt cursor d w).overlay.live = (adopt cursor d w').overlay.live := by
  unfold adopt
  repeat' split
  all_goals simp only [Overlay.activate, h]

namespace Paired

variable (hrel : ExactLockstep Rel)

include hrel

/-- Taking up a directive that runs no script keeps walks paired. -/
theorem adopt (h : Paired Rel w w') (d : Directive) :
    Paired Rel (adopt cursor d w) (adopt cursor d w') :=
  h.adopt_of d (hrel.of_pending h.overlay (adopt_pending cursor d w) (adopt_pending cursor d w')
    (adopt_live_congr cursor d (hrel.live h.overlay)))

/-- The line of an instruction is added with its comments. -/
theorem addCode (h : Paired Rel w w') (i : Z80.Instruction) (bytes : List UInt8) :
    Paired Rel (w.addCode i bytes cursor) (w'.addCode i bytes cursor) := by
  have hscope := h.scope_eq
  refine ⟨h.scopes, ?_, ?_⟩
  · simp only [Walk.addCode, hscope, h.references]
  · have hcommentsOn : (w.overlay.takeComments cursor (cursor + i.length - 1)).2.commentsOn cursor =
        (w'.overlay.takeComments cursor (cursor + i.length - 1)).2.commentsOn cursor := by
      funext operand
      rw [Overlay.commentsOn, Overlay.commentsOn, Overlay.live_takeComments,
        Overlay.live_takeComments, hrel.live h.overlay]
    simp only [Walk.addCode, Array.toList_push, hscope, hcommentsOn]
    exact hrel.takeComments h.overlay _ _ _ _ _

/-- **The same directives are taken up**, if there are enough steps for all of them. -/
theorem takeUp (steps : Nat) {steps' : Nat} (h : Paired Rel w w')
    (hsteps : w.overlay.pending.length ≤ steps) (hsteps' : w'.overlay.pending.length ≤ steps') :
    SameEnd (SameNext (Paired Rel)) (takeUp m cursor steps w) (takeUp m cursor steps' w') := by
  induction steps generalizing w w' steps' with
  | zero =>
    obtain ⟨hnone, hnone'⟩ | ⟨d, o, o', taken, -⟩ := hrel.takeActive h.overlay cursor
    · rw [takeUp_none hnone, takeUp_none hnone']
      exact .ok ⟨rfl, h⟩
    · have hlen := (Overlay.takeActive_sublist taken).2.2.1
      omega
  | succ steps ih =>
    obtain ⟨hnone, hnone'⟩ | ⟨d, o, o', taken, taken', ho⟩ := hrel.takeActive h.overlay cursor
    · rw [takeUp_none hnone, takeUp_none hnone']
      exact .ok ⟨rfl, h⟩
    · have hrest : Paired Rel { w with overlay := o } { w' with overlay := o' } :=
        ⟨h.scopes, h.references, ho⟩
      have hlen' := (Overlay.takeActive_sublist taken').2.2.1
      obtain ⟨steps', rfl⟩ := Nat.exists_eq_add_one_of_ne_zero (by omega : steps' ≠ 0)
      exact hrest.takeUp_both hrel.toLockstep taken taken' (ih (hrest.adopt hrel d)
        (length_pending_adopt taken hsteps) (length_pending_adopt taken' hsteps'))

end Paired

/-- **Walks whose overlays give them the same directives go through the same stops.** -/
theorem simulates_paired (hrel : ExactLockstep Rel) (m : Machine) : Simulates m (Paired Rel) where
  expire h cursor := ⟨congrArg (·.expire cursor) h.scopes, h.references,
    hrel.of_pending h.overlay rfl rfl (congrArg (List.dropWhile _) (hrel.live h.overlay))⟩
  patterns h := hrel.patterns h.overlay
  takeUp h _ := h.takeUp hrel _ (Nat.le_refl _) (Nat.le_refl _)
  decodeLine h _ := h.decodeLine hrel.toLockstep (h.addCode hrel)

end Walk
end Disassembly
