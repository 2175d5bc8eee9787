/-
# The overlay

The overlay holds the directives that the walk has not used up, and the reference and displacement
comments that are in effect. Pending directives are kept under keys: the range of a directive, and how
many directives were inserted before it. So they are in the order of their ranges, and those with
equal ranges in the order in which they were inserted. Comments in effect are in the order of their
last addresses, and those with equal last addresses in the order in which they were activated.
-/

import Disassembly.Directive.Basic
import Std.Data.TreeMap

namespace Disassembly
namespace Overlay

/-- What a pending directive is kept under. -/
structure Key where
  first : UInt16
  last : UInt16
  /-- How many directives were inserted before. -/
  arrival : Nat
  deriving DecidableEq

namespace Key

/-- Keys are in the order of ranges, and then of arrival. -/
instance : Ord Key where
  compare := compareLex (compareOn first) (compareLex (compareOn last) (compareOn arrival))

instance : Std.TransOrd Key :=
  inferInstanceAs (Std.TransCmp
    (compareLex (compareOn first) (compareLex (compareOn last) (compareOn arrival))))

instance : Std.LawfulEqOrd Key where
  eq_of_compare {a b} h := by
    obtain ⟨hfirst, hrest⟩ := compareLex_eq_eq.1 h
    obtain ⟨hlast, harrival⟩ := compareLex_eq_eq.1 hrest
    cases a
    cases b
    rw [Key.mk.injEq]
    exact ⟨Std.LawfulEqOrd.eq_of_compare hfirst, Std.LawfulEqOrd.eq_of_compare hlast,
      Std.LawfulEqOrd.eq_of_compare harrival⟩

end Key
end Overlay

/-- Pending directives and comments in effect. -/
structure Overlay where
  /-- The pending directives by their keys. -/
  entries : Std.TreeMap Overlay.Key Directive
  /-- How many directives have been inserted. -/
  arrivals : Nat
  live : List Directive
  /-- Each directive is kept under its range and the number of its arrival. -/
  keyed : ∀ (key : Overlay.Key) (d : Directive), entries[key]? = some d →
    key.first = d.first ∧ key.last = d.last ∧ key.arrival < arrivals

namespace Overlay

/-- The overlay with nothing pending and nothing in effect. -/
def empty : Overlay where
  entries := ∅
  arrivals := 0
  live := []
  keyed key d h := by simp at h

/-- The pending directives, in the order of their keys. -/
def pending (o : Overlay) : List Directive := o.entries.toList.map Prod.snd

/-- Add a pending directive. -/
def insert (o : Overlay) (d : Directive) : Overlay where
  entries := o.entries.insert ⟨d.first, d.last, o.arrivals⟩ d
  arrivals := o.arrivals + 1
  live := o.live
  keyed key e h := by
    rw [Std.TreeMap.getElem?_insert] at h
    split at h
    · rename_i hkey
      obtain rfl := Std.LawfulEqOrd.eq_of_compare hkey
      obtain rfl := Option.some.inj h
      exact ⟨rfl, rfl, Nat.lt_succ_self _⟩
    · obtain ⟨hfirst, hlast, harrival⟩ := o.keyed key e h
      exact ⟨hfirst, hlast, Nat.lt_succ_of_lt harrival⟩

/-- The overlay with these directives pending, inserted in order. -/
def ofList (ds : List Directive) : Overlay := ds.foldl insert empty

/-- Remove what is kept under a key. -/
def erase (o : Overlay) (key : Key) : Overlay where
  entries := o.entries.erase key
  arrivals := o.arrivals
  live := o.live
  keyed other d h := by
    rw [Std.TreeMap.getElem?_erase] at h
    split at h
    · simp at h
    · exact o.keyed other d h

/-- Take the directive that is kept under a key. -/
def take (o : Overlay) (key : Key) : Option (Directive × Overlay) :=
  o.entries[key]?.map fun d => (d, o.erase key)

/-- The directives that have started by the cursor, with their keys. The search ends at the first
start beyond it. -/
def startedBy (o : Overlay) (cursor : Nat) : List (Key × Directive) :=
  o.entries.toList.takeWhile fun entry => entry.1.first.toNat ≤ cursor

/-- Take the first pending directive that has started by the cursor. Plain comments are left for
`takeComments`. -/
def takeActive (o : Overlay) (cursor : Nat) : Option (Directive × Overlay) :=
  ((o.startedBy cursor).find? fun entry => !entry.2.isPlainComment).bind fun entry =>
    o.take entry.1

/-- A comment: where it stands, and its text. -/
abbrev Comment := Position × String

/-- The comment that a plain comment directive makes, unless its range lies before `first`. -/
def commentFrom? (first : Nat) (d : Directive) : Option Comment :=
  match d.annotation with
  | .comment position text => if first ≤ d.last.toNat then some (position, text) else none
  | _ => none

/-- Take the directives that are kept under keys, one after the other. Those whose whole range lies
before `first` are dropped, and the comments that the others make are returned in order. -/
def takeKeys (first : Nat) : List Key → Overlay → List Comment × Overlay
  | [], o => ([], o)
  | key :: keys, o =>
    match o.take key with
    | none => takeKeys first keys o
    | some (d, rest) =>
      let (taken, left) := takeKeys first keys rest
      ((commentFrom? first d).toList ++ taken, left)

/-- Take every plain comment that starts at or before `last`. Those whose whole range lies before
`first` are dropped, and the others are returned in order. -/
def takeComments (o : Overlay) (first last : Nat) : List Comment × Overlay :=
  takeKeys first
    (((o.startedBy last).filter fun entry => entry.2.isPlainComment).map Prod.fst) o

/-- Put a comment before the first comment that ends later. -/
def activateLive (d : Directive) : List Directive → List Directive
  | [] => [d]
  | e :: es => if d.last < e.last then d :: e :: es else e :: activateLive d es

/-- Bring a reference or displacement comment into effect. -/
def activate (o : Overlay) (d : Directive) : Overlay :=
  { o with live := activateLive d o.live }

/-- Drop the comments in effect that end before the cursor. -/
def expire (o : Overlay) (cursor : Nat) : Overlay :=
  { o with live := o.live.dropWhile fun d => d.last.toNat < cursor }

/-- The comment that a directive makes on an operand of the instruction at `address`. -/
def commentOn? (address : Nat) (operand : Z80.Operand) (d : Directive) : Option Comment :=
  if d.contains address then
    match d.annotation with
    | .reference position matching value text =>
      if matching.value? operand = some value then some (position, text) else none
    | .displacement position matching displacement text =>
      if matching.value? operand = some displacement then some (position, text) else none
    | _ => none
  else none

/-- The comments in effect on an operand of the instruction at `address`. -/
def commentsOn (o : Overlay) (address : Nat) (operand : Z80.Operand) : List Comment :=
  o.live.filterMap (commentOn? address operand)

end Overlay
end Disassembly
