/-
# The order of pending directives

Pending directives are in the order of their ranges. Within one range they are in the order in which
they came, and a list in the order of ranges is determined by that: two such lists are equal if they
hold the same directives in the same order for each range (`eq_of_sorted_of_filter_eq`). Inserting a
directive puts it behind those with its range and moves none of the others (`filter_insertPending`).
-/

import Disassembly.Overlay
import Disassembly.Proofs.Sorting.Stable

namespace Disassembly

namespace Directive

/-- Whether two directives have the same range. -/
def sameRange (a b : Directive) : Bool := a.first = b.first && a.last = b.last

theorem sameRange_iff {a b : Directive} :
    a.sameRange b = true ↔ a.first = b.first ∧ a.last = b.last := by
  simp [sameRange]

/-- The order of ranges, on numbers. -/
theorem le_iff {a b : Directive} :
    a.le b = true ↔ a.first.toNat < b.first.toNat ∨
      a.first.toNat = b.first.toNat ∧ a.last.toNat ≤ b.last.toNat := by
  simp only [le, Bool.or_eq_true, Bool.and_eq_true, decide_eq_true_eq, UInt16.lt_iff_toNat_lt,
    UInt16.le_iff_toNat_le, ← UInt16.toNat_inj]

/-- The addresses of a range, on numbers. -/
theorem contains_iff {d : Directive} {a : Nat} :
    d.contains a = true ↔ d.first.toNat ≤ a ∧ a ≤ d.last.toNat := by
  rw [contains, Bool.and_eq_true, decide_eq_true_eq, decide_eq_true_eq]

theorem le_total (a b : Directive) : (a.le b || b.le a) = true := by
  rw [Bool.or_eq_true, le_iff, le_iff]; omega

theorem le_trans (a b c : Directive) (hab : a.le b = true) (hbc : b.le c = true) :
    a.le c = true := by
  rw [le_iff] at *; omega

/-- Directives have the same range exactly if they have the same rank in the order of ranges. -/
theorem sameRange_eq (a : Directive) : sameRange a = Sorting.sameRank le a := by
  funext b
  rw [Bool.eq_iff_iff, sameRange_iff, Sorting.sameRank, Bool.and_eq_true, le_iff, le_iff,
    ← UInt16.toNat_inj, ← UInt16.toNat_inj]
  omega

/-- Directives in the order of their ranges. -/
def Sorted (ds : List Directive) : Prop := ds.Pairwise fun a b => a.le b = true

theorem Sorted.sublist {ds ds' : List Directive} (h : Sorted ds) (hs : ds'.Sublist ds) :
    Sorted ds' :=
  List.Pairwise.sublist hs h

/-- The first of a list in the order of ranges comes no later than any of it. -/
theorem Sorted.head_le {d e : Directive} {ds : List Directive} (h : Sorted (d :: ds))
    (he : e ∈ d :: ds) : d.le e = true :=
  Sorting.head_le le_total h he

/-- **A list in the order of ranges is determined by what it holds for each range.** -/
theorem eq_of_sorted_of_filter_eq {ds ds' : List Directive} (hs : Sorted ds) (hs' : Sorted ds')
    (h : ∀ d, ds.filter (sameRange d) = ds'.filter (sameRange d)) : ds = ds' := by
  simp only [sameRange_eq] at h
  exact Sorting.eq_of_pairwise_of_filter_eq le_total hs hs' h

/-- Sorting puts directives in the order of their ranges. -/
theorem sorted_sort (ds : List Directive) : Sorted (sort ds) :=
  List.pairwise_mergeSort le_trans le_total ds

/-- **Sorting keeps the directives of each range as they were.** -/
theorem filter_sort (d : Directive) (ds : List Directive) :
    (sort ds).filter (sameRange d) = ds.filter (sameRange d) := by
  rw [sameRange_eq]
  exact Sorting.filter_sameRank_mergeSort le_trans le_total d ds

end Directive

namespace Overlay

open Directive

/-- Put a directive after every directive whose range comes no later. -/
def insertPending (d : Directive) : List Directive → List Directive
  | [] => [d]
  | e :: es => if e.le d then e :: insertPending d es else d :: e :: es

/-- Inserting a directive puts it behind those that come no later. -/
theorem insertPending_eq (d : Directive) (ds : List Directive) :
    insertPending d ds = Sorting.insertBehind le d ds := by
  induction ds with
  | nil => rfl
  | cons e es ih => rw [insertPending, Sorting.insertBehind, ih]

/-- Inserting keeps the order of ranges. -/
theorem sorted_insertPending (d : Directive) {ds : List Directive} (h : Sorted ds) :
    Sorted (insertPending d ds) := by
  rw [insertPending_eq]
  exact Sorting.pairwise_insertBehind Directive.le_trans Directive.le_total d h

/-- **A directive is inserted behind those with its range**, and the others stay as they are. -/
theorem filter_insertPending (d e : Directive) {ds : List Directive} (h : Sorted ds) :
    (insertPending d ds).filter (sameRange e) =
      ds.filter (sameRange e) ++ [d].filter (sameRange e) := by
  rw [insertPending_eq, sameRange_eq]
  exact Sorting.filter_insertBehind Directive.le_trans Directive.le_total d e h

end Overlay
end Disassembly
