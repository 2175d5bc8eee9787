/-
# Nested scopes

The scopes in effect at the cursor. The base scope is always there. Every other scope lasts until
the cursor passes its last address, and is the scope that was current when it was pushed, changed.
-/

import Disassembly.Scope.Change

namespace Disassembly
namespace Scope

/-- A base scope and the scopes pushed on it, the latest first, each with its last address. -/
structure Stack where
  base : Scope
  pushed : List (UInt16 × Scope)

namespace Stack

/-- No scope but the base. -/
def ofBase (base : Scope) : Stack := ⟨base, []⟩

/-- The scope in effect. -/
def current (s : Stack) : Scope :=
  match s.pushed with
  | [] => s.base
  | top :: _ => top.2

/-- How many scopes are pushed. -/
def depth (s : Stack) : Nat := s.pushed.length

/-- Change the current scope up to and including the address `last`. -/
def push (s : Stack) (last : UInt16) (change : Change) : Stack :=
  { s with pushed := (last, change.apply s.current) :: s.pushed }

/-- Drop every scope that ends before the cursor. -/
def expire (s : Stack) (cursor : Nat) : Stack :=
  { s with pushed := s.pushed.filter fun scope => cursor ≤ scope.1.toNat }

end Stack
end Scope
end Disassembly
