/-
# Timing

The execution time of an instruction in clock states, listed per machine cycle. An instruction that
can take a shorter path, because its condition fails or its block is finished, has a second list.
-/

import Disassembly.Numeral.Render

namespace Disassembly
namespace Z80

/-- The execution time of an instruction. -/
inductive Timing
  /-- Only the total is known. -/
  | total (states : Nat)
  /-- The states of each machine cycle, and those of the shorter path if there is one. -/
  | cycles (primary : List Nat) (alternate : Option (List Nat))

namespace Timing

/-- The states of a path altogether. -/
def pathTotal (states : List Nat) : Nat := states.foldr (· + ·) 0

/-- The states of the longer path. -/
def primaryTotal : Timing → Nat
  | total states => states
  | cycles primary _ => pathTotal primary

/-- The states of the shorter path, if there is one. -/
def alternateTotal : Timing → Option Nat
  | total _ => none
  | cycles _ alternate => alternate.map pathTotal

/-- The totals, such as `12/7`. -/
def describeTotal (t : Timing) : String :=
  match t.alternateTotal with
  | some other => Numeral.decimal t.primaryTotal ++ "/" ++ Numeral.decimal other
  | none => Numeral.decimal t.primaryTotal

/-- The states of each cycle, separated by commas. -/
def describeCycles (states : List Nat) : String :=
  String.intercalate "," (states.map Numeral.decimal)

/-- The states of each cycle of both paths, such as `4,3,5/4,3`. -/
def describeStates : Timing → String
  | total states => Numeral.decimal states
  | cycles primary (some alternate) =>
    describeCycles primary ++ "/" ++ describeCycles alternate
  | cycles primary none => describeCycles primary

end Timing
end Z80
end Disassembly
