/-
# Steps of scripts, run by run

What a composed step does from a given context, as equations that rewrite a run from left to right,
and what follows from a run, or from a reading of source, that ended well.
-/

import Disassembly.Script.Context

namespace Disassembly

/-- A mapped result that is one comes from one. -/
theorem exists_ok_of_map {ε α β : Type} {f : α → β} {x : Except ε α} {b : β}
    (h : x.map f = .ok b) : ∃ a, x = .ok a ∧ f a = b := by
  cases x with
  | error e => exact absurd h (by simp [Except.map])
  | ok a => exact ⟨a, rfl, Except.ok.inj h⟩

/-- What can be read off a result that may be missing can be read off a result. -/
theorem exists_ok_of_toOption_map {ε α β : Type} {f : α → β} {x : Except ε α} {b : β}
    (h : x.toOption.map f = some b) : ∃ a, x = .ok a ∧ f a = b := by
  cases x with
  | error e => exact absurd h (by simp [Except.toOption])
  | ok a => exact ⟨a, rfl, Option.some.inj h⟩

/-- A composed reading ends well only if both its parts do. -/
theorem exists_ok_of_bind {ε α β : Type} {x : Except ε α} {f : α → Except ε β} {b : β}
    (h : x >>= f = .ok b) : ∃ a, x = .ok a ∧ f a = .ok b := by
  cases x with
  | error e => exact absurd h (by simp [bind, Except.bind])
  | ok a => exact ⟨a, rfl, h⟩

namespace Script

variable {ε α β : Type}

@[simp] theorem pure_apply (a : α) (c : Context) : (pure a : EStateM ε Context α) c = .ok a c := rfl

@[simp] theorem throw_apply (e : ε) (c : Context) :
    (throw e : EStateM ε Context α) c = .error e c := rfl

@[simp] theorem get_apply (c : Context) : (get : EStateM ε Context Context) c = .ok c c := rfl

@[simp] theorem modify_apply (f : Context → Context) (c : Context) :
    (modify f : EStateM ε Context Unit) c = .ok () (f c) := rfl

theorem bind_apply (x : EStateM ε Context α) (f : α → EStateM ε Context β) (c : Context) :
    (x >>= f) c = match x c with
      | .ok a c' => f a c'
      | .error e c' => .error e c' := by
  cases h : x c <;> simp [bind, EStateM.bind, h]

/-- The second part of a composed step runs from where the first ended. -/
theorem bind_ok {x : EStateM ε Context α} {f : α → EStateM ε Context β} {c c' : Context} {a : α}
    (h : x c = .ok a c') : (x >>= f) c = f a c' := by
  rw [bind_apply, h]

/-- **A composed step ends well only if both its parts do.** -/
theorem bind_eq_ok {x : EStateM ε Context α} {f : α → EStateM ε Context β} {c c' : Context} {b : β}
    (h : (x >>= f) c = .ok b c') : ∃ a c₁, x c = .ok a c₁ ∧ f a c₁ = .ok b c' := by
  rw [bind_apply] at h
  split at h
  · exact ⟨_, _, ‹_›, h⟩
  · simp at h

@[simp] theorem ofExcept_ok (a : α) : Action.ofExcept (.ok a) = (pure a : Action α) := rfl

/-- A byte that is read is one of the buffer, and nothing changes. -/
theorem readByte_eq_ok {setting : Setting} {address : Nat} {b : UInt8} {c c' : Context}
    (h : Action.readByte setting address c = .ok b c') :
    setting.image.byte? address = some b ∧ c' = c := by
  rw [Action.readByte] at h
  cases hbyte : setting.image.byte? address with
  | some b' =>
    rw [hbyte] at h
    obtain ⟨rfl, rfl⟩ := EStateM.Result.ok.inj h
    exact ⟨rfl, rfl⟩
  | none =>
    rw [hbyte] at h
    cases h

/-- The same for a word, in the byte order of the context. -/
theorem readWord_eq_ok {setting : Setting} {address : Nat} {w : UInt16} {c c' : Context}
    (h : Action.readWord setting address c = .ok w c') :
    setting.image.word? address c.format.bigEndian = some w ∧ c' = c := by
  rw [Action.readWord, bind_ok (get_apply c)] at h
  cases hword : setting.image.word? address c.format.bigEndian with
  | some w' =>
    rw [hword] at h
    obtain ⟨rfl, rfl⟩ := EStateM.Result.ok.inj h
    exact ⟨rfl, rfl⟩
  | none =>
    rw [hword] at h
    cases h

/-- Assigning to a slot runs or fails as the context lets it. -/
theorem assign_apply (slot : UInt8) (value : UInt16) (c : Context) :
    Action.assign slot value c =
      match c.assign slot value with
      | .ok c' => .ok () c'
      | .error kind => .error kind c := by
  unfold Action.assign
  rw [bind_ok (get_apply c), bind_apply]
  cases c.assign slot value <;> rfl

namespace Context

theorem advance_zero (c : Context) : c.advance 0 = c := by
  have hoffset : c.lineOffset + UInt16.ofNat 0 = c.lineOffset := UInt16.add_zero _
  rw [advance, hoffset]

theorem advance_advance (c : Context) (m n : Nat) : (c.advance m).advance n = c.advance (m + n) := by
  simp only [advance, UInt16.ofNat_add, UInt16.add_assoc]

end Context
end Script
end Disassembly
