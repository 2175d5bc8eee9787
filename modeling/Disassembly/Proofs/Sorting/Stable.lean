/-
# Stable sorting

Elements of the same rank, of which neither comes before the other, keep their order when a list is
sorted (`filter_sameRank_mergeSort`). A list that is in order is determined by what it holds for each
rank (`eq_of_pairwise_of_filter_eq`), and so by the elements and the order in which they came. Two
ways to come by a sorted list follow: an element that comes last is put behind all that come no later
(`insertBehind_mergeSort`), and dropping elements does not disturb the others (`filter_mergeSort`).
What has a property up to some rank stands in front, so a search may end at the first element without
it (`takeWhile_eq_filter`).
-/

import Mathlib.Data.List.Basic

namespace Disassembly
namespace Sorting

variable {α : Type} {le : α → α → Bool}

/-- Whether two elements have the same rank: each comes no later than the other. -/
def sameRank (le : α → α → Bool) (a b : α) : Bool := le a b && le b a

/-- Put an element behind every element that comes no later, in a list that is in order. -/
def insertBehind (le : α → α → Bool) (a : α) : List α → List α
  | [] => [a]
  | b :: bs => if le b a then b :: insertBehind le a bs else a :: b :: bs

/-- Inserting adds the element and nothing else. -/
theorem perm_insertBehind (a : α) (xs : List α) : (insertBehind le a xs).Perm (a :: xs) := by
  induction xs with
  | nil => exact List.Perm.refl _
  | cons x xs ih =>
    rw [insertBehind]
    split
    · exact (ih.cons x).trans (List.Perm.swap a x xs)
    · exact List.Perm.refl _

theorem mem_insertBehind {a b : α} {xs : List α} : b ∈ insertBehind le a xs ↔ b = a ∨ b ∈ xs := by
  rw [(perm_insertBehind a xs).mem_iff, List.mem_cons]

/-- Elements are inserted where their images are, if the images are compared in the same way. -/
theorem map_insertBehind {β : Type} {le' : β → β → Bool} {f : α → β} {a : α} {xs : List α}
    (h : ∀ b ∈ xs, le b a = le' (f b) (f a)) :
    (insertBehind le a xs).map f = insertBehind le' (f a) (xs.map f) := by
  induction xs with
  | nil => rfl
  | cons x xs ih =>
    rw [List.forall_mem_cons] at h
    rw [List.map_cons, insertBehind, insertBehind, h.1]
    split
    · rw [List.map_cons, ih h.2]
    · rfl

/-- **Up to the first element without a property stand all that have it**, if none of these comes
behind one without it. -/
theorem takeWhile_eq_filter {p : α → Bool} {xs : List α}
    (h : xs.Pairwise fun a b => p b = true → p a = true) : xs.takeWhile p = xs.filter p := by
  induction xs with
  | nil => rfl
  | cons x xs ih =>
    rw [List.pairwise_cons] at h
    by_cases hx : p x = true
    · rw [List.takeWhile_cons_of_pos hx, List.filter_cons_of_pos hx, ih h.2]
    · have hnil : xs.filter p = [] :=
        List.filter_eq_nil_iff.2 fun y hy hp => hx (h.1 y hy hp)
      rw [List.takeWhile_cons_of_neg hx, List.filter_cons_of_neg hx, hnil]

/-- From there on stand all that do not have it. -/
theorem dropWhile_eq_filter {p : α → Bool} {xs : List α}
    (h : xs.Pairwise fun a b => p b = true → p a = true) :
    xs.dropWhile p = xs.filter fun a => !p a := by
  induction xs with
  | nil => rfl
  | cons x xs ih =>
    rw [List.pairwise_cons] at h
    by_cases hx : p x = true
    · rw [List.dropWhile_cons_of_pos hx, List.filter_cons_of_neg (by simp [hx]), ih h.2]
    · have hall : (x :: xs).filter (fun a => !p a) = x :: xs := by
        refine List.filter_eq_self.2 fun y hy => ?_
        rcases List.mem_cons.1 hy with rfl | hy
        · simpa using hx
        · simpa using fun hp => hx (h.1 y hy hp)
      rw [List.dropWhile_cons_of_neg hx, hall]

section Order

variable (trans : ∀ a b c : α, le a b = true → le b c = true → le a c = true)
  (total : ∀ a b : α, (le a b || le b a) = true)

include trans in
/-- Elements of the rank of a third come no later than each other. -/
theorem le_of_sameRank {a b c : α} (hab : sameRank le a b = true) (hac : sameRank le a c = true) :
    le b c = true := by
  rw [sameRank, Bool.and_eq_true] at hab hac
  exact trans _ _ _ hab.2 hac.1

include total

theorem le_refl (a : α) : le a a = true := by
  have h := total a a
  rwa [Bool.or_self] at h

theorem le_of_not_le {a b : α} (h : ¬le a b = true) : le b a = true := by
  have hor := total a b
  rw [Bool.or_eq_true] at hor
  exact hor.resolve_left h

theorem sameRank_self (a : α) : sameRank le a a = true := by
  rw [sameRank, le_refl total, Bool.and_self]

/-- The first of a list in order comes no later than any of it. -/
theorem head_le {a b : α} {xs : List α} (h : (a :: xs).Pairwise fun a b => le a b = true)
    (hb : b ∈ a :: xs) : le a b = true := by
  rcases List.mem_cons.1 hb with rfl | hb
  · exact le_refl total b
  · exact List.rel_of_pairwise_cons h hb

/-- What a list holds is what it holds for each rank. -/
theorem mem_iff_of_filter_eq {xs ys : List α}
    (h : ∀ a, xs.filter (sameRank le a) = ys.filter (sameRank le a)) (a : α) :
    a ∈ xs ↔ a ∈ ys := by
  have ha := congrArg (a ∈ ·) (h a)
  simpa [List.mem_filter, sameRank_self total] using ha

/-- **A list in order is determined by what it holds for each rank.** -/
theorem eq_of_pairwise_of_filter_eq {xs ys : List α}
    (hxs : xs.Pairwise fun a b => le a b = true) (hys : ys.Pairwise fun a b => le a b = true)
    (h : ∀ a, xs.filter (sameRank le a) = ys.filter (sameRank le a)) : xs = ys := by
  induction xs generalizing ys with
  | nil =>
    refine (List.eq_nil_iff_forall_not_mem.2 fun a ha => ?_).symm
    exact List.not_mem_nil ((mem_iff_of_filter_eq total h a).2 ha)
  | cons x xs ih =>
    cases ys with
    | nil => exact absurd ((mem_iff_of_filter_eq total h x).1 List.mem_cons_self) List.not_mem_nil
    | cons y ys =>
      have hxy := head_le total hxs ((mem_iff_of_filter_eq total h y).2 List.mem_cons_self)
      have hyx := head_le total hys ((mem_iff_of_filter_eq total h x).1 List.mem_cons_self)
      have hx := h x
      rw [List.filter_cons_of_pos (sameRank_self total x),
        List.filter_cons_of_pos (by rw [sameRank, hxy, hyx]; rfl)] at hx
      obtain rfl := (List.cons.inj hx).1
      rw [ih hxs.of_cons hys.of_cons fun a => ?_]
      have ha := h a
      rw [List.filter_cons, List.filter_cons] at ha
      split at ha
      · exact (List.cons.inj ha).2
      · exact ha

include trans

/-- **Sorting keeps the elements of each rank as they were.** -/
theorem filter_sameRank_mergeSort (a : α) (xs : List α) :
    (xs.mergeSort le).filter (sameRank le a) = xs.filter (sameRank le a) := by
  have hpair : (xs.filter (sameRank le a)).Pairwise fun a b => le a b = true := by
    refine List.Pairwise.imp_of_mem (R := fun _ _ => True) (fun {b c} hb hc _ => ?_)
      (List.pairwise_of_forall fun _ _ => trivial)
    exact le_of_sameRank trans (List.mem_filter.1 hb).2 (List.mem_filter.1 hc).2
  have hsub : (xs.filter (sameRank le a)).Sublist ((xs.mergeSort le).filter (sameRank le a)) := by
    have h := (List.sublist_mergeSort trans total hpair List.filter_sublist).filter (sameRank le a)
    rwa [List.filter_filter, show (fun b => sameRank le a b && sameRank le a b) = sameRank le a from
      funext fun b => Bool.and_self _] at h
  exact (hsub.eq_of_length ((List.mergeSort_perm xs le).filter _).length_eq.symm).symm

/-- Inserting keeps a list in order. -/
theorem pairwise_insertBehind (a : α) {xs : List α} (h : xs.Pairwise fun a b => le a b = true) :
    (insertBehind le a xs).Pairwise fun a b => le a b = true := by
  induction xs with
  | nil => exact List.pairwise_singleton _ _
  | cons x xs ih =>
    rw [insertBehind]
    split
    · rename_i hx
      refine List.pairwise_cons.2 ⟨fun b hb => ?_, ih h.of_cons⟩
      rcases mem_insertBehind.1 hb with rfl | hb
      · exact hx
      · exact List.rel_of_pairwise_cons h hb
    · rename_i hx
      have hax : le a x = true := le_of_not_le total hx
      exact List.pairwise_cons.2 ⟨fun b hb => trans _ _ _ hax (head_le total h hb), h⟩

/-- **An element is inserted behind those of its rank**, and the others stay as they are. -/
theorem filter_insertBehind (a b : α) {xs : List α} (h : xs.Pairwise fun a b => le a b = true) :
    (insertBehind le a xs).filter (sameRank le b) =
      xs.filter (sameRank le b) ++ [a].filter (sameRank le b) := by
  induction xs with
  | nil => rfl
  | cons x xs ih =>
    rw [insertBehind]
    split
    · rw [List.filter_cons, List.filter_cons, ih h.of_cons]
      split
      · rw [List.cons_append]
      · rfl
    · rename_i hx
      rw [← List.singleton_append, List.filter_append]
      by_cases hba : sameRank le b a = true
      · have hnil : (x :: xs).filter (sameRank le b) = [] := by
          refine List.filter_eq_nil_iff.2 fun c hc hbc => hx ?_
          exact trans _ _ _ (head_le total h hc) (le_of_sameRank trans hbc hba)
        rw [hnil, List.append_nil, List.nil_append]
      · rw [List.filter_cons_of_neg hba, List.filter_nil, List.nil_append, List.append_nil]

/-- **Sorting puts the last element behind all that come no later.** -/
theorem insertBehind_mergeSort (a : α) (xs : List α) :
    insertBehind le a (xs.mergeSort le) = (xs ++ [a]).mergeSort le := by
  have hsorted := List.pairwise_mergeSort trans total xs
  refine eq_of_pairwise_of_filter_eq total (pairwise_insertBehind trans total a hsorted)
    (List.pairwise_mergeSort trans total _) fun b => ?_
  rw [filter_insertBehind trans total a b hsorted, filter_sameRank_mergeSort trans total,
    filter_sameRank_mergeSort trans total, List.filter_append]

/-- **Dropping elements does not disturb the order of the others.** -/
theorem filter_mergeSort (p : α → Bool) (xs : List α) :
    (xs.mergeSort le).filter p = (xs.filter p).mergeSort le := by
  refine eq_of_pairwise_of_filter_eq total
    ((List.pairwise_mergeSort trans total xs).sublist List.filter_sublist)
    (List.pairwise_mergeSort trans total _) fun a => ?_
  rw [List.filter_comm, filter_sameRank_mergeSort trans total, List.filter_comm,
    filter_sameRank_mergeSort trans total]

end Order
end Sorting
end Disassembly
