/-
# One more plain comment

Two overlays of which one has one more plain comment pending are used alike: inserting a directive
keeps the comment pending (`OneMore.insertPending`), the directive that is taken is the same
(`OneMore.takeActivePending`), and taking comments leaves the comment pending or takes it along with the
others (`OneMore.takeComments`).
-/

import Disassembly.Proofs.Overlay.Taking

namespace Disassembly

/-- Whether a list is another with one more element. -/
def OneMore {α : Type} (x : α) (xs ys : List α) : Prop :=
  ∃ front back, xs = front ++ back ∧ ys = front ++ x :: back

namespace OneMore

section List

variable {α β : Type} {x : α} {xs ys : List α}

/-- The element may come last. -/
theorem concat (x : α) (xs : List α) : OneMore x xs (xs ++ [x]) := ⟨xs, [], by simp, rfl⟩

theorem cons (y : α) (h : OneMore x xs ys) : OneMore x (y :: xs) (y :: ys) := by
  obtain ⟨front, back, rfl, rfl⟩ := h
  exact ⟨y :: front, back, rfl, rfl⟩

theorem append_right (h : OneMore x xs ys) (zs : List α) : OneMore x (xs ++ zs) (ys ++ zs) := by
  obtain ⟨front, back, rfl, rfl⟩ := h
  exact ⟨front, back ++ zs, List.append_assoc _ _ _, List.append_assoc _ _ _⟩

theorem filter_of_pos {p : α → Bool} (h : OneMore x xs ys) (hx : p x = true) :
    OneMore x (xs.filter p) (ys.filter p) := by
  obtain ⟨front, back, rfl, rfl⟩ := h
  refine ⟨front.filter p, back.filter p, List.filter_append _ _, ?_⟩
  rw [List.filter_append, List.filter_cons_of_pos hx]

theorem filter_of_neg {p : α → Bool} (h : OneMore x xs ys) (hx : p x = false) :
    xs.filter p = ys.filter p := by
  obtain ⟨front, back, rfl, rfl⟩ := h
  rw [List.filter_append, List.filter_append, List.filter_cons_of_neg (by simp [hx])]

theorem filterMap_of_some {f : α → Option β} {y : β} (h : OneMore x xs ys) (hx : f x = some y) :
    OneMore y (xs.filterMap f) (ys.filterMap f) := by
  obtain ⟨front, back, rfl, rfl⟩ := h
  refine ⟨front.filterMap f, back.filterMap f, List.filterMap_append, ?_⟩
  rw [List.filterMap_append, List.filterMap_cons_some hx]

theorem filterMap_of_none {f : α → Option β} (h : OneMore x xs ys) (hx : f x = none) :
    xs.filterMap f = ys.filterMap f := by
  obtain ⟨front, back, rfl, rfl⟩ := h
  rw [List.filterMap_append, List.filterMap_append, List.filterMap_cons_none hx]

end List

open Directive

variable {d : Directive} {ds ds' : List Directive}

/-- A directive that is inserted is one more. -/
theorem ofInsertPending (d : Directive) (ds : List Directive) :
    OneMore d ds (Overlay.insertPending d ds) :=
  Overlay.exists_insertPending d ds

/-- **A directive is inserted at the same place**, in the order of ranges. -/
theorem insertPending (h : OneMore d ds ds') (hs : Sorted ds') (e : Directive) :
    OneMore d (Overlay.insertPending e ds) (Overlay.insertPending e ds') := by
  obtain ⟨front, back, rfl, rfl⟩ := h
  induction front with
  | nil =>
    rw [List.nil_append] at hs
    rw [List.nil_append, List.nil_append, Overlay.insertPending]
    split
    · exact ⟨[], _, rfl, rfl⟩
    · rename_i hde
      have hfirst : Overlay.insertPending e back = e :: back := by
        cases back with
        | nil => rfl
        | cons b back =>
          rw [Overlay.insertPending, if_neg]
          exact fun hbe => hde (Directive.le_trans _ _ _ (hs.head_le (by simp)) hbe)
      rw [hfirst]
      exact ⟨[e], back, rfl, rfl⟩
  | cons x front ih =>
    rw [List.cons_append, List.cons_append, Overlay.insertPending, Overlay.insertPending]
    split
    · exact (ih hs.of_cons).cons x
    · exact ⟨e :: x :: front, back, rfl, rfl⟩

/-- **The same directive is taken**: a plain comment is passed over. -/
theorem takeActivePending (h : OneMore d ds ds') (hs : Sorted ds') (hd : d.isPlainComment = true)
    (cursor : Nat) :
    (Overlay.takeActivePending cursor ds = none ∧ Overlay.takeActivePending cursor ds' = none) ∨
      ∃ e rest rest', Overlay.takeActivePending cursor ds = some (e, rest) ∧
        Overlay.takeActivePending cursor ds' = some (e, rest') ∧ OneMore d rest rest' := by
  obtain ⟨front, back, rfl, rfl⟩ := h
  induction front with
  | nil =>
    rw [List.nil_append] at hs
    rw [List.nil_append, List.nil_append]
    by_cases hfirst : d.first.toNat ≤ cursor
    · rw [Overlay.takeActivePending.eq_def cursor (d :: back)]
      simp only [hfirst, hd, if_true]
      cases Overlay.takeActivePending cursor back with
      | none => exact .inl ⟨rfl, rfl⟩
      | some taken => exact .inr ⟨taken.1, taken.2, d :: taken.2, rfl, rfl, [], taken.2, rfl, rfl⟩
    · have hnone : Overlay.takeActivePending cursor back = none := by
        cases back with
        | nil => rfl
        | cons b back =>
          have hle := le_iff.1 (hs.head_le (e := b) (by simp))
          rw [Overlay.takeActivePending, if_neg (by omega)]
      rw [Overlay.takeActivePending.eq_def cursor (d :: back)]
      exact .inl ⟨hnone, by simp [hfirst]⟩
  | cons x front ih =>
    rw [List.cons_append, List.cons_append, Overlay.takeActivePending, Overlay.takeActivePending]
    split
    · split
      · obtain ⟨hnone, hnone'⟩ | ⟨e, rest, rest', hsome, hsome', hrest⟩ := ih hs.of_cons
        · exact .inl ⟨by rw [hnone]; rfl, by rw [hnone']; rfl⟩
        · exact .inr ⟨e, x :: rest, x :: rest', by rw [hsome]; rfl, by rw [hsome']; rfl,
            hrest.cons x⟩
      · exact .inr ⟨x, front ++ back, front ++ d :: back, rfl, rfl, front, back, rfl, rfl⟩
    · exact .inl ⟨rfl, rfl⟩

/-- **Taking comments leaves the further comment pending, or takes it with the others**, among which
it is one more unless it has ended. -/
theorem takeComments {o o' : Overlay} (h : OneMore d o.pending o'.pending) {position : Position}
    {text : String} (ha : d.annotation = .comment position text) (first last : Nat) :
    ((o.takeComments first last).1 = (o'.takeComments first last).1 ∧
        OneMore d (o.takeComments first last).2.pending (o'.takeComments first last).2.pending) ∨
      ((o.takeComments first last).1 = (o'.takeComments first last).1 ∨
          OneMore (position, text) (o.takeComments first last).1 (o'.takeComments first last).1) ∧
        (o.takeComments first last).2.pending = (o'.takeComments first last).2.pending := by
  simp only [Overlay.fst_takeComments, Overlay.pending_takeComments]
  cases hdue : Overlay.isDue last d with
  | false =>
    refine .inl ⟨?_, h.filter_of_pos (by rw [hdue]; rfl)⟩
    exact congrArg (List.filterMap (Overlay.commentFrom? first)) (h.filter_of_neg hdue)
  | true =>
    refine .inr ⟨?_, h.filter_of_neg (by rw [hdue]; rfl)⟩
    have htaken := h.filter_of_pos hdue
    by_cases hlast : first ≤ d.last.toNat
    · refine .inr (htaken.filterMap_of_some ?_)
      simp only [Overlay.commentFrom?, ha, if_pos hlast]
    · refine .inl (htaken.filterMap_of_none ?_)
      simp only [Overlay.commentFrom?, ha, if_neg hlast]

end OneMore
end Disassembly
