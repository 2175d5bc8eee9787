/-
# Running truth values

A block tests conditions one after the other and keeps a truth value, which starts as true. The first
result replaces it, and every further result is combined with it in the way last asked for.
-/

namespace Disassembly
namespace Script

/-- How a result is combined with the truth value so far. -/
inductive Combinator
  | and
  | or
  | xor
  deriving DecidableEq

/-- The truth value after combining a result with the one so far. -/
def Combinator.apply : Combinator → Bool → Bool → Bool
  | and, a, b => a && b
  | or, a, b => a || b
  | xor, a, b => a != b

/-- The truth value of a block so far. -/
structure Running where
  truth : Bool := true
  /-- Whether there has been a result. -/
  tested : Bool := false
  combinator : Combinator := .and

namespace Running

/-- Take in a result. -/
def fold (r : Running) (result : Bool) : Running :=
  if r.tested then { r with truth := r.combinator.apply r.truth result }
  else { r with truth := result, tested := true }

/-- Whether a further result cannot change the truth value. -/
def decided (r : Running) : Bool :=
  r.tested && match r.combinator with
    | .and => !r.truth
    | .or => r.truth
    | .xor => false

end Running

/-- A comparison of two values. -/
inductive Relation
  | lt
  | gt
  | eq
  | le
  | ge
  | ne

namespace Relation

/-- The comparison with the given two-letter name. -/
def ofName? : Char → Char → Option Relation
  | 'L', 'T' => some lt
  | 'G', 'T' => some gt
  | 'E', 'Q' => some eq
  | 'L', 'E' => some le
  | 'G', 'E' => some ge
  | 'N', 'E' => some ne
  | _, _ => none

/-- Whether the values compare this way. -/
def holds (r : Relation) (a b : UInt16) : Bool :=
  match r with
  | lt => a < b
  | gt => b < a
  | eq => a = b
  | le => a ≤ b
  | ge => b ≤ a
  | ne => a ≠ b

end Relation
end Script
end Disassembly
