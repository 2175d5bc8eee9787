/-
# Scripts as edits of their context

Whatever a script does, it does by a few kinds of changes to its context (`Edit`), and it chooses
them by a part of the context only: it never looks at the lines it has finished, at the directives
that are pending or at the references recorded so far. `Scripted` says so of a step: from two
contexts that look the same (`Context.visible`), it makes the same edits and has the same result.
Most steps are also `Quiet`: they record no reference. The rules at the end carry both over from the
parts of a step to the whole.
-/

import Disassembly.Proofs.Script.Action

namespace Disassembly

namespace Directive

/-- Whether a script can add the directive: it adds comments and data blocks. -/
def isAddable (d : Directive) : Bool :=
  match d.annotation with
  | .format _ | .patternBlock _ => false
  | _ => true

end Directive

namespace Script

/-- A change that a script makes to its context. -/
inductive Edit
  | pushText (text : String)
  | startLine
  | endLine
  | dropLine
  | endBlockHere
  | advance (bytes : Nat)
  /-- Put a value into a free slot. -/
  | setFree (i : Fin 10) (value : UInt16)
  /-- Put the current address somewhere, at its offset from the line. -/
  | moveTo (address : UInt16)
  | setBlockEnd (last : UInt16)
  | setFormat (format : NumberFormat)
  | insert (d : Directive) (addable : d.isAddable = true)
  | recordReference (address : UInt16)
  | beginCandidate (address matched : UInt16)

namespace Edit

/-- The context after a change. -/
def apply (setting : Setting) (c : Context) : Edit → Context
  | pushText text => c.pushText setting text
  | startLine => c.startLine setting
  | endLine => c.endLine setting
  | dropLine => c.dropLine
  | endBlockHere => c.endBlockHere
  | advance bytes => c.advance bytes
  | setFree i value => c.store (.free i) value
  | moveTo address => c.store .lineOffset (address - c.lineStart)
  | setBlockEnd last => c.setBlockEnd last
  | setFormat format => { c with format }
  | insert d _ => c.insertDirective d
  | recordReference address => c.recordReference address
  | beginCandidate address matched => c.beginCandidate address matched

/-- The context after changes, in order. -/
def applyAll (setting : Setting) (edits : List Edit) (c : Context) : Context :=
  edits.foldl (apply setting) c

theorem applyAll_append (setting : Setting) (edits edits' : List Edit) (c : Context) :
    applyAll setting (edits ++ edits') c = applyAll setting edits' (applyAll setting edits c) :=
  List.foldl_append

/-- Whether the change leaves finished lines, pending directives and references alone. -/
def isLocal : Edit → Bool
  | endLine | insert .. | recordReference _ => false
  | _ => true

/-- Whether the change records no reference. -/
def isQuiet : Edit → Bool
  | recordReference _ => false
  | _ => true

/-- **What a script does not see changes in three ways only**: when a line ends, a directive is
added or a reference is recorded. -/
theorem apply_of_isLocal (setting : Setting) (c : Context) {e : Edit} (h : e.isLocal = true) :
    (e.apply setting c).lines = c.lines ∧ (e.apply setting c).overlay = c.overlay ∧
      (e.apply setting c).references = c.references := by
  cases e with
  | pushText text =>
    simp only [apply, Context.pushText]
    split <;> exact ⟨rfl, rfl, rfl⟩
  | startLine =>
    simp only [apply, Context.startLine]
    split <;> exact ⟨rfl, rfl, rfl⟩
  | endLine => exact absurd h (by simp [isLocal])
  | insert d addable => exact absurd h (by simp [isLocal])
  | recordReference address => exact absurd h (by simp [isLocal])
  | _ => cases c; exact ⟨rfl, rfl, rfl⟩

end Edit

/-- The context as a script sees it: without finished lines, pending directives and references. -/
def Context.visible (c : Context) : Context :=
  { c with lines := #[], overlay := .empty, references := ∅ }

/-- What is read off what a script sees is the same in contexts that look the same. -/
theorem eq_of_visible {α : Sort _} {c c' : Context} (f : Context → α)
    (look : ∀ c, f c = f c.visible) (h : c.visible = c'.visible) : f c = f c' := by
  rw [look c, h, ← look c']

/-- What a script sees after a change depends on what it saw before. -/
theorem visible_apply (setting : Setting) (c : Context) (e : Edit) :
    (e.apply setting c).visible = (e.apply setting c.visible).visible := by
  obtain ⟨_, _, _, _, _, _, _, line, _, _, _, _⟩ := c
  cases e <;> cases line <;> rfl

/-- Contexts that look the same still do after the same changes. -/
theorem visible_applyAll (setting : Setting) (edits : List Edit) {c c' : Context}
    (h : c.visible = c'.visible) :
    (Edit.applyAll setting edits c).visible = (Edit.applyAll setting edits c').visible := by
  induction edits generalizing c c' with
  | nil => exact h
  | cons e edits ih =>
    refine ih ?_
    rw [visible_apply, h, ← visible_apply]

/-- The result of a step that ends in a context. -/
def outcome {ε α : Type} (c : Context) : Except ε α → EStateM.Result ε Context α
  | .ok a => .ok a c
  | .error e => .error e c

/-- **A step of a script edits its context by what it sees**, with allowed edits only. From contexts
that look the same it makes the same edits and has the same result. -/
def ScriptedBy {ε α : Type} (allowed : Edit → Bool) (setting : Setting) (x : EStateM ε Context α) :
    Prop :=
  ∀ c c' : Context, c.visible = c'.visible → ∃ edits result, edits.all allowed = true ∧
    x c = outcome (Edit.applyAll setting edits c) result ∧
      x c' = outcome (Edit.applyAll setting edits c') result

/-- A step of a script edits its context by what it sees. -/
abbrev Scripted {ε α : Type} (setting : Setting) (x : EStateM ε Context α) : Prop :=
  ScriptedBy (fun _ => true) setting x

/-- A step of a script edits its context by what it sees, and records no reference. -/
abbrev Quiet {ε α : Type} (setting : Setting) (x : EStateM ε Context α) : Prop :=
  ScriptedBy Edit.isQuiet setting x

namespace ScriptedBy

variable {ε ε' α β : Type} {allowed : Edit → Bool} {setting : Setting}

/-- A step with allowed edits is one with any edits. -/
theorem scripted {x : EStateM ε Context α} (hx : ScriptedBy allowed setting x) :
    Scripted setting x := by
  intro c c' h
  obtain ⟨edits, result, -, hc, hc'⟩ := hx c c' h
  exact ⟨edits, result, by simp, hc, hc'⟩

protected theorem pure (a : α) : ScriptedBy allowed setting (pure a : EStateM ε Context α) :=
  fun _ _ _ => ⟨[], .ok a, rfl, rfl, rfl⟩

protected theorem throw (e : ε) : ScriptedBy allowed setting (throw e : EStateM ε Context α) :=
  fun _ _ _ => ⟨[], .error e, rfl, rfl, rfl⟩

/-- Nothing comes after a failure. -/
theorem throw_bind (e : ε) (f : α → EStateM ε Context β) :
    ScriptedBy allowed setting ((throw e : EStateM ε Context α) >>= f) :=
  fun _ _ _ => ⟨[], .error e, rfl, rfl, rfl⟩

/-- A composed step makes the edits of its first part, then those of its second. -/
protected theorem bind {x : EStateM ε Context α} {f : α → EStateM ε Context β}
    (hx : ScriptedBy allowed setting x) (hf : ∀ a, ScriptedBy allowed setting (f a)) :
    ScriptedBy allowed setting (x >>= f) := by
  intro c c' h
  obtain ⟨edits, result, hall, hc, hc'⟩ := hx c c' h
  rw [bind_apply, bind_apply, hc, hc']
  cases result with
  | error e => exact ⟨edits, .error e, hall, rfl, rfl⟩
  | ok a =>
    obtain ⟨edits', result', hall', hd, hd'⟩ := hf a _ _ (visible_applyAll setting edits h)
    refine ⟨edits ++ edits', result', ?_, ?_, ?_⟩
    · rw [List.all_append, hall, hall']; rfl
    · rw [Edit.applyAll_append]; exact hd
    · rw [Edit.applyAll_append]; exact hd'

protected theorem map {x : EStateM ε Context α} (f : α → β) (hx : ScriptedBy allowed setting x) :
    ScriptedBy allowed setting (f <$> x) := by
  rw [map_eq_pure_bind]
  exact hx.bind fun a => .pure (f a)

/-- A step may look at what it sees of its context. -/
protected theorem get {f : Context → EStateM ε Context α} (look : ∀ c, f c = f c.visible)
    (hf : ∀ c, ScriptedBy allowed setting (f c)) : ScriptedBy allowed setting (get >>= f) := by
  intro c c' h
  obtain ⟨edits, result, hall, hc, hc'⟩ := hf c c c' h
  exact ⟨edits, result, hall, hc, (congrFun (eq_of_visible f look h) c').symm.trans hc'⟩

/-- A step may make edits, the same ones in any context. -/
protected theorem modify {f : Context → Context} (edits : List Edit)
    (hall : edits.all allowed = true) (hf : ∀ c, f c = Edit.applyAll setting edits c) :
    ScriptedBy allowed setting (modify f : EStateM ε Context PUnit) :=
  fun c c' _ => ⟨edits, .ok (), hall, congrArg (EStateM.Result.ok ()) (hf c),
    congrArg (EStateM.Result.ok ()) (hf c')⟩

protected theorem ite {p : Prop} [Decidable p] {x y : EStateM ε Context α}
    (hx : ScriptedBy allowed setting x) (hy : ScriptedBy allowed setting y) :
    ScriptedBy allowed setting (if p then x else y) := by
  split
  · exact hx
  · exact hy

protected theorem ofExcept (r : Except ErrorKind α) :
    ScriptedBy allowed setting (Action.ofExcept r) := by
  cases r with
  | ok a => exact .pure a
  | error kind => exact .throw kind

/-- What a step does with a piece of source need only be known where it is one. -/
theorem ofExcept_bind {r : Except ErrorKind α} {f : α → Action β}
    (hf : ∀ a, r = .ok a → ScriptedBy allowed setting (f a)) :
    ScriptedBy allowed setting (Action.ofExcept r >>= f) := by
  cases r with
  | ok a => exact hf a rfl
  | error kind => exact .throw kind

/-- Errors may be wrapped, by what is seen where they come up. -/
theorem mapError {x : EStateM ε Context α} {y : EStateM ε' Context α} (wrap : ε → Context → ε')
    (look : ∀ e c, wrap e c = wrap e c.visible)
    (hy : ∀ c, y c = match x c with
      | .ok a c => .ok a c
      | .error e c => .error (wrap e c) c) (hx : ScriptedBy allowed setting x) :
    ScriptedBy allowed setting y := by
  intro c c' h
  obtain ⟨edits, result, hall, hc, hc'⟩ := hx c c' h
  rw [hy, hy, hc, hc']
  cases result with
  | ok a => exact ⟨edits, .ok a, hall, rfl, rfl⟩
  | error e =>
    refine ⟨edits, .error (wrap e (Edit.applyAll setting edits c)), hall, rfl, ?_⟩
    rw [eq_of_visible (wrap e) (look e) (visible_applyAll setting edits h)]
    rfl

end ScriptedBy
end Script
end Disassembly
