/-
# The history of a walk

A walk is a function with bounds on its steps. Here the walks that end well are given by rules
(`Stopped` for one stop, `Walked` for the rest of a walk), with a history of what happened: the
instructions that were decoded and the scripts that were run, each with the scope in effect
(`Event`). Every walk that ends well has a history (`walked_of_walk`), because the bounds are never
used up: a stop moves the cursor on, and scripts add no pattern blocks.
-/

import Disassembly.Proofs.Script.References
import Disassembly.Proofs.Walk.Steps
import Disassembly.Proofs.Z80.Extension

namespace Disassembly
namespace Walk

open Script

/-- Something that happened on a walk. -/
inductive Event
  /-- An instruction with these bytes was decoded at an address. -/
  | code (address : Nat) (instruction : Z80.Instruction) (bytes : List UInt8) (scope : Scope)
  /-- A script was run, over a data block or at the addresses of a pattern block. -/
  | script (setting : Setting) (trace : List Place)

/-- The scope in effect. -/
def Event.scope : Event → Scope
  | code _ _ _ scope => scope
  | script setting _ => setting.scope

/-- A data block is rendered from the cursor on, by a run with a trace. -/
def Renders (m : Machine) (w : Walk) (cursor : Nat) (last : UInt16) (program : String)
    (trace : List Place) (next : Nat) (w' : Walk) : Prop :=
  w.dataBlock m cursor last program = .ok (next, w') ∧
    ∃ outcome c, run (w.setting m) program (w.context m cursor last) = .ok outcome c ∧
      Runs (w.setting m) program (w.context m cursor last) trace c

/-- A pattern block is searched from the cursor on, by runs with a trace. -/
def Scans (m : Machine) (w : Walk) (cursor : Nat) (last : UInt16) (program : String)
    (trace : List Place) (w' : Walk) : Prop :=
  w.patternBlock m cursor last program = .ok w' ∧
    ∃ matched c, runPattern (w.setting m) program (w.context m cursor last) = .ok matched c ∧
      RunsPattern (w.setting m) program (w.context m cursor last) trace c

/-- **What happens at a stop.** Directives that run no script are taken up. Then an instruction is
decoded, what is cut off is dumped, a data block is rendered, or a pattern block is searched and the
stop goes on. -/
inductive Stopped (m : Machine) (cursor : Nat) : Walk → List Event → Nat → Walk → Prop
  | code {w u : Walk} {i : Z80.Instruction} (taken : TakesUp cursor w u)
      (hnone : u.overlay.takeActive cursor = none)
      (hdecode : Z80.decode (m.image.windowUpTo cursor Z80.longest) (UInt16.ofNat cursor)
        u.scope.numberBase = .ok i) :
      Stopped m cursor w
        [.code cursor i ((m.image.windowUpTo cursor Z80.longest).take i.length) u.scope]
        (cursor + i.length)
        (u.addCode i ((m.image.windowUpTo cursor Z80.longest).take i.length) cursor)
  | cutOff {w u w' : Walk} {e : Z80.Truncated} {trace : List Place} {next : Nat}
      (taken : TakesUp cursor w u) (hnone : u.overlay.takeActive cursor = none)
      (hdecode : Z80.decode (m.image.windowUpTo cursor Z80.longest) (UInt16.ofNat cursor)
        u.scope.numberBase = .error e)
      (renders : Renders m u cursor m.image.last Preset.rawBytes trace next w') :
      Stopped m cursor w [.script (u.setting m) trace] next w'
  | block {w u w' : Walk} {d : Directive} {o : Overlay} {program : String} {trace : List Place}
      {next : Nat} (taken : TakesUp cursor w u)
      (hsome : u.overlay.takeActive cursor = some (d, o)) (hlast : cursor ≤ d.last.toNat)
      (hprogram : d.annotation = .dataBlock program)
      (renders : Renders m { u with overlay := o } cursor d.last program trace next w') :
      Stopped m cursor w [.script (u.setting m) trace] next w'
  | search {w u u' w' : Walk} {d : Directive} {o : Overlay} {program : String}
      {trace : List Place} {events : List Event} {next : Nat} (taken : TakesUp cursor w u)
      (hsome : u.overlay.takeActive cursor = some (d, o)) (hlast : cursor ≤ d.last.toNat)
      (hprogram : d.annotation = .patternBlock program)
      (scans : Scans m { u with overlay := o } cursor d.last program trace u')
      (onward : Stopped m cursor u' events next w') :
      Stopped m cursor w (.script (u.setting m) trace :: events) next w'

/-- **What happens on a walk** from the cursor on: one stop after the other, up to the end of the
window. -/
inductive Walked (m : Machine) : Nat → Walk → List Event → Walk → Prop
  | finish {cursor : Nat} (w : Walk) (hstop : m.image.stop ≤ cursor) : Walked m cursor w [] w
  | stop {cursor next : Nat} {w u w' : Walk} {events events' : List Event}
      (hcursor : cursor < m.image.stop) (stopped : Stopped m cursor (w.expire cursor) events next u)
      (onward : Walked m next u events' w') : Walked m cursor w (events ++ events') w'

variable {m : Machine} {cursor next : Nat} {w w' : Walk} {last : UInt16} {program : String}

theorem renders_of_dataBlock (h : w.dataBlock m cursor last program = .ok (next, w')) :
    ∃ trace, Renders m w cursor last program trace next w' := by
  cases hrun : run (w.setting m) program (w.context m cursor last) with
  | error e c => exact absurd h (by simp [Walk.dataBlock, hrun])
  | ok outcome c =>
    obtain ⟨trace, hruns⟩ := runs_of_run hrun
    exact ⟨trace, h, outcome, c, hrun, hruns⟩

theorem scans_of_patternBlock (h : w.patternBlock m cursor last program = .ok w') :
    ∃ trace, Scans m w cursor last program trace w' := by
  cases hrun : runPattern (w.setting m) program (w.context m cursor last) with
  | error e c => exact absurd h (by simp [Walk.patternBlock, hrun])
  | ok matched c =>
    obtain ⟨trace, hruns⟩ := runsPattern_of_runPattern hrun
    exact ⟨trace, h, matched, c, hrun, hruns⟩

/-! ### Pattern blocks are used up -/

theorem isPlainComment_of_isPattern {d : Directive} (h : isPattern d = true) :
    d.isPlainComment = false := by
  unfold isPattern at h
  unfold Directive.isPlainComment
  cases ha : d.annotation <;> simp [ha] at h ⊢

/-- No edit of a script adds a pattern block or takes one away. -/
theorem filter_isPattern_apply (setting : Setting) (c : Context) (e : Edit) :
    (e.apply setting c).overlay.pending.filter isPattern =
      c.overlay.pending.filter isPattern := by
  by_cases hlocal : e.isLocal = true
  · rw [(Edit.apply_of_isLocal setting c hlocal).2.1]
  · cases e with
    | endLine =>
      simp only [Edit.apply, Context.endLine]
      split
      · rfl
      · exact Overlay.filter_takeComments_of_not_plain (fun _ => isPlainComment_of_isPattern)
          c.overlay c.lineStart.toNat _
    | insert d addable =>
      have hd : isPattern d = false := by
        unfold Directive.isAddable at addable
        unfold isPattern
        cases ha : d.annotation <;> simp [ha] at addable ⊢
      exact (congrArg _ (Overlay.pending_insert c.overlay d)).trans
        (Overlay.filter_insertPending_of_neg hd c.overlay.pending)
    | recordReference address => rfl
    | _ => exact absurd rfl hlocal

/-- **A search leaves the pattern blocks that there were.** -/
theorem filter_isPattern_patternBlock (h : w.patternBlock m cursor last program = .ok w') :
    w'.overlay.pending.filter isPattern = w.overlay.pending.filter isPattern := by
  have hedits (edits : List Edit) (c : Context) :
      (Edit.applyAll (w.setting m) edits c).overlay.pending.filter isPattern =
        c.overlay.pending.filter isPattern := by
    induction edits generalizing c with
    | nil => rfl
    | cons e edits ih => exact (ih _).trans (filter_isPattern_apply (w.setting m) c e)
  obtain ⟨edits, result, -, hrun, -⟩ :=
    scripted_runPattern (w.setting m) program (w.context m cursor last) _ rfl
  rw [Walk.patternBlock, hrun] at h
  cases result with
  | error e => exact absurd h (by simp [outcome])
  | ok matched =>
    obtain rfl := Except.ok.inj h
    exact hedits edits (w.context m cursor last)

theorem countP_isPattern_patternBlock (h : w.patternBlock m cursor last program = .ok w') :
    w'.overlay.pending.countP isPattern = w.overlay.pending.countP isPattern := by
  rw [List.countP_eq_length_filter, List.countP_eq_length_filter, filter_isPattern_patternBlock h]

/-- Taking a pattern block leaves fewer of them. -/
theorem countP_isPattern_takeActive {o o' : Overlay} {d : Directive}
    (h : o.takeActive cursor = some (d, o')) (hd : isPattern d = true) :
    o'.pending.countP isPattern < o.pending.countP isPattern := by
  obtain ⟨skipped, tail, hds, hrest, -⟩ := Overlay.takeActive_split h
  rw [hds, hrest, List.countP_append, List.countP_append, List.countP_cons, hd]
  simp

/-- **A search leaves one pattern block fewer**, whatever it adds. -/
theorem countP_isPattern_searched (h : StopsWith m cursor w (.searched, w')) :
    w'.overlay.pending.countP isPattern < w.overlay.pending.countP isPattern := by
  obtain ⟨u, d, o, program, htakes, hsome, -, hprogram, hrun⟩ := h
  have hsame := countP_isPattern_patternBlock hrun
  have hfewer := countP_isPattern_takeActive hsome (by rw [isPattern, hprogram])
  have htaken := htakes.pending_sublist.countP_le (p := isPattern)
  rw [hsame]
  exact Nat.lt_of_lt_of_le hfewer htaken

/-! ### Every walk has a history -/

/-- Decoding an instruction ends a stop at which no directive is left. -/
theorem stopped_of_decodeLine {u : Walk} (taken : TakesUp cursor w u)
    (hnone : u.overlay.takeActive cursor = none)
    (h : u.decodeLine m cursor = .ok (next, w')) : ∃ events, Stopped m cursor w events next w' := by
  rw [decodeLine] at h
  cases hdecode : Z80.decode (m.image.windowUpTo cursor Z80.longest) (UInt16.ofNat cursor)
      u.scope.numberBase with
  | error e =>
    simp only [hdecode] at h
    obtain ⟨trace, hrenders⟩ := renders_of_dataBlock h
    exact ⟨_, .cutOff taken hnone hdecode hrenders⟩
  | ok i =>
    simp only [hdecode] at h
    obtain ⟨rfl, rfl⟩ := Prod.mk.inj (Except.ok.inj h)
    exact ⟨_, .code taken hnone hdecode⟩

/-- **A stop that ends well has a history**, if there are enough searches for the pattern blocks. -/
theorem stopped_of_activate {searches : Nat} {found : Option Nat} {u : Walk}
    (hsearches : w.overlay.pending.countP isPattern < searches)
    (h : match found with
      | some n => n = next ∧ u = w'
      | none => u.decodeLine m cursor = .ok (next, w'))
    (hactivate : activate m cursor searches w = .ok (found, u)) :
    ∃ events, Stopped m cursor w events next w' := by
  induction searches generalizing w with
  | zero => exact absurd hsearches (Nat.not_lt_zero _)
  | succ searches ih =>
    rw [activate] at hactivate
    cases htake : takeUp m cursor w.overlay.pending.length w with
    | error e => exact absurd hactivate (by simp [htake])
    | ok r =>
      have hcases := takeUp_cases _ w (Nat.le_refl _) htake
      obtain ⟨stop, v⟩ := r
      cases stop with
      | settled =>
        simp only [htake] at hactivate
        obtain ⟨rfl, rfl⟩ := Prod.mk.inj (Except.ok.inj hactivate)
        exact stopped_of_decodeLine hcases.1 hcases.2 h
      | resumeAt n =>
        simp only [htake] at hactivate
        obtain ⟨rfl, rfl⟩ := Prod.mk.inj (Except.ok.inj hactivate)
        obtain ⟨rfl, rfl⟩ := h
        obtain ⟨v', d, o, program, hv, hsome, hlast, hprogram, hrun⟩ := hcases
        obtain ⟨trace, hrenders⟩ := renders_of_dataBlock hrun
        exact ⟨_, .block hv hsome hlast hprogram hrenders⟩
      | searched =>
        simp only [htake] at hactivate
        have hfewer := countP_isPattern_searched hcases
        obtain ⟨v', d, o, program, hv, hsome, hlast, hprogram, hrun⟩ := hcases
        obtain ⟨trace, hscans⟩ := scans_of_patternBlock hrun
        obtain ⟨events, honward⟩ := ih (by omega) hactivate
        exact ⟨_, .search hv hsome hlast hprogram hscans honward⟩

/-- **Every stop that ends well has a history.** -/
theorem stopped_of_step (h : w.step m cursor = .ok (next, w')) :
    ∃ events, Stopped m cursor (w.expire cursor) events next w' := by
  rw [step] at h
  cases hactivate : activate m cursor ((w.expire cursor).overlay.pending.countP isPattern + 1)
      (w.expire cursor) with
  | error e => exact absurd h (by simp [hactivate])
  | ok r =>
    obtain ⟨found, u⟩ := r
    refine stopped_of_activate (Nat.lt_succ_self _) ?_ hactivate
    cases found with
    | some n =>
      simp only [hactivate] at h
      exact Prod.mk.inj (Except.ok.inj h)
    | none =>
      simp only [hactivate] at h
      exact h

/-- A data block that is rendered moves the cursor on, wherever its script puts its end. -/
theorem lt_of_dataBlock (h : w.dataBlock m cursor last program = .ok (next, w')) :
    cursor < next := by
  unfold Walk.dataBlock at h
  split at h
  · exact absurd h (by simp)
  · obtain ⟨rfl, -⟩ := Prod.mk.inj (Except.ok.inj h)
    omega

/-- An instruction that is decoded moves the cursor on, and so does a dump of what is cut off. -/
theorem lt_of_decodeLine (h : w.decodeLine m cursor = .ok (next, w')) : cursor < next := by
  dsimp only [decodeLine] at h
  split at h
  · exact lt_of_dataBlock h
  · rename_i i hdecode
    have hlength := (Z80.decode_length hdecode).1
    obtain ⟨rfl, -⟩ := Prod.mk.inj (Except.ok.inj h)
    omega

/-- A stop moves the cursor on. -/
theorem Stopped.lt {events : List Event} (h : Stopped m cursor w events next w') :
    cursor < next := by
  induction h with
  | code taken hnone hdecode =>
    have hlength := (Z80.decode_length hdecode).1
    omega
  | cutOff taken hnone hdecode renders => exact lt_of_dataBlock renders.1
  | block taken hsome hlast hprogram renders => exact lt_of_dataBlock renders.1
  | search taken hsome hlast hprogram scans onward ih => exact ih

/-- **Every walk that ends well has a history**, if there are enough steps. -/
theorem walked_of_walkFrom {steps : Nat} {p : Progress} (hsteps : m.image.stop ≤ cursor + steps)
    (h : (walkFrom m steps cursor w p).2 = .ok w') : ∃ events, Walked m cursor w events w' := by
  induction steps generalizing cursor w p with
  | zero =>
    obtain rfl := Except.ok.inj h
    exact ⟨[], .finish w hsteps⟩
  | succ steps ih =>
    rw [walkFrom] at h
    split at h
    · rename_i hcursor
      cases hstep : w.step m cursor with
      | error e => exact absurd h (by simp [hstep])
      | ok r =>
        obtain ⟨next, u⟩ := r
        simp only [hstep] at h
        obtain ⟨events, hstopped⟩ := stopped_of_step hstep
        have hnext := hstopped.lt
        obtain ⟨events', honward⟩ := ih (by omega) h
        exact ⟨_, .stop hcursor hstopped honward⟩
    · rename_i hcursor
      obtain rfl := Except.ok.inj h
      exact ⟨[], .finish w (by omega)⟩

theorem walked_of_walk {p : Progress} (h : (walk m w p).2 = .ok w') :
    ∃ events, Walked m m.image.origin.toNat w events w' :=
  walked_of_walkFrom (Nat.le_refl _) h

end Walk
end Disassembly
