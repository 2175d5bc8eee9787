/-
# Taking pending directives

Taking the next directive that has started removes that one and keeps the others where they are
(`takeActivePending_eq_some`). It is the first that has started and is not a plain comment: if there
is none, every directive that has started is a plain comment (`takeActivePending_eq_none`). Taking
comments removes plain comments only.
-/

import Disassembly.Proofs.Overlay.Keys

namespace Disassembly
namespace Overlay

open Directive

/-- **The directive that is taken stands behind plain comments alone**, and the others stay. -/
theorem takeActivePending_eq_some {cursor : Nat} {ds rest : List Directive} {d : Directive}
    (h : takeActivePending cursor ds = some (d, rest)) :
    ∃ skipped tail, ds = skipped ++ d :: tail ∧ rest = skipped ++ tail ∧
      (∀ e ∈ skipped, e.isPlainComment = true) ∧ d.isPlainComment = false ∧
      d.first.toNat ≤ cursor := by
  induction ds generalizing rest with
  | nil => simp [takeActivePending] at h
  | cons x xs ih =>
    rw [takeActivePending] at h
    split at h
    · rename_i hx
      split at h
      · rename_i hplain
        obtain ⟨⟨d', rest'⟩, hxs, heq⟩ := Option.map_eq_some_iff.1 h
        obtain ⟨rfl, rfl⟩ := Prod.mk.inj heq
        obtain ⟨skipped, tail, rfl, rfl, hskipped, hd⟩ := ih hxs
        refine ⟨x :: skipped, tail, rfl, rfl, fun e he => ?_, hd⟩
        rcases List.mem_cons.1 he with rfl | he
        · exact hplain
        · exact hskipped e he
      · rename_i hplain
        obtain ⟨rfl, rfl⟩ := Prod.mk.inj (Option.some.inj h)
        exact ⟨[], xs, rfl, rfl, fun e he => absurd he List.not_mem_nil,
          Bool.eq_false_iff.2 hplain, hx⟩
    · simp at h

/-- **If nothing is taken, every directive that has started is a plain comment.** -/
theorem takeActivePending_eq_none {cursor : Nat} {ds : List Directive} (hs : Sorted ds)
    (h : takeActivePending cursor ds = none) {d : Directive} (hd : d ∈ ds)
    (hfirst : d.first.toNat ≤ cursor) : d.isPlainComment = true := by
  induction ds with
  | nil => exact absurd hd List.not_mem_nil
  | cons x xs ih =>
    rw [takeActivePending] at h
    split at h
    · split at h
      · rename_i hplain
        rcases List.mem_cons.1 hd with rfl | hd
        · exact hplain
        · exact ih hs.of_cons (Option.map_eq_none_iff.1 h) hd
      · simp at h
    · rename_i hx
      have hle := le_iff.1 (hs.head_le hd)
      omega

variable {o o' : Overlay} {d : Directive} {cursor : Nat}

/-- **The directive that is taken stands behind plain comments alone**, and the others stay pending.
-/
theorem takeActive_split (h : o.takeActive cursor = some (d, o')) :
    ∃ skipped tail, o.pending = skipped ++ d :: tail ∧ o'.pending = skipped ++ tail ∧
      (∀ e ∈ skipped, e.isPlainComment = true) ∧ d.isPlainComment = false ∧
      d.first.toNat ≤ cursor :=
  takeActivePending_eq_some (takeActivePending_of_takeActive h)

/-- There is nothing to take where nothing is pending. -/
theorem takeActive_of_length (h : o.pending.length ≤ 0) : o.takeActive cursor = none := by
  rw [takeActive_eq_none_iff, List.eq_nil_of_length_eq_zero (Nat.le_zero.1 h)]
  rfl

/-- **If nothing is taken, every pending directive that has started is a plain comment.** -/
theorem isPlainComment_of_takeActive_eq_none (h : o.takeActive cursor = none) (hd : d ∈ o.pending)
    (hfirst : d.first.toNat ≤ cursor) : d.isPlainComment = true :=
  takeActivePending_eq_none o.sorted_pending (takeActive_eq_none_iff.1 h) hd hfirst

/-- What is left after taking a directive is what was there. -/
theorem takeActive_sublist (h : o.takeActive cursor = some (d, o')) :
    d ∈ o.pending ∧ o'.pending.Sublist o.pending ∧ o'.pending.length + 1 = o.pending.length ∧
      o'.live = o.live := by
  obtain ⟨skipped, tail, hds, hrest, -⟩ := takeActive_split h
  rw [hds, hrest]
  refine ⟨List.mem_append_right _ List.mem_cons_self, ?_, ?_, live_takeActive h⟩
  · exact (List.Sublist.refl skipped).append (List.sublist_cons_self _ _)
  · rw [List.length_append, List.length_append, List.length_cons, Nat.add_assoc]

/-- What is left after taking comments is what was there. -/
theorem takeComments_sublist (o : Overlay) (first last : Nat) :
    (o.takeComments first last).2.pending.Sublist o.pending :=
  pending_takeComments o first last ▸ List.filter_sublist

/-- **Taking comments leaves the other directives where they are**: any that are chosen without
regard to plain comments are the same afterwards. -/
theorem filter_takeComments_of_not_plain {keep : Directive → Bool}
    (hkeep : ∀ d, keep d = true → d.isPlainComment = false) (o : Overlay) (first last : Nat) :
    (o.takeComments first last).2.pending.filter keep = o.pending.filter keep := by
  rw [pending_takeComments, List.filter_filter]
  refine List.filter_congr fun d _ => ?_
  cases hd : keep d with
  | false => rfl
  | true => simp [isDue, hkeep d hd]

theorem filter_takeComments (o : Overlay) (first last : Nat) :
    (o.takeComments first last).2.pending.filter (fun d => !d.isPlainComment) =
      o.pending.filter fun d => !d.isPlainComment :=
  filter_takeComments_of_not_plain (fun d hd => by simpa using hd) o first last

/-- A directive is inserted between the others. -/
theorem exists_insertPending (d : Directive) (ds : List Directive) :
    ∃ front back, ds = front ++ back ∧ insertPending d ds = front ++ d :: back := by
  induction ds with
  | nil => exact ⟨[], [], rfl, rfl⟩
  | cons e es ih =>
    rw [insertPending]
    split
    · obtain ⟨front, back, hes, hinsert⟩ := ih
      exact ⟨e :: front, back, by rw [hes, List.cons_append], by rw [hinsert, List.cons_append]⟩
    · exact ⟨[], e :: es, rfl, rfl⟩

/-- Inserting a directive keeps the others in their order. -/
theorem sublist_insertPending (d : Directive) (ds : List Directive) :
    ds.Sublist (insertPending d ds) := by
  obtain ⟨front, back, rfl, hinsert⟩ := exists_insertPending d ds
  rw [hinsert]
  exact (List.Sublist.refl front).append (List.sublist_cons_self d back)

/-- Inserting a directive that is dropped changes nothing. -/
theorem filter_insertPending_of_neg {keep : Directive → Bool} (hd : keep d = false)
    (ds : List Directive) : (insertPending d ds).filter keep = ds.filter keep := by
  obtain ⟨front, back, rfl, hinsert⟩ := exists_insertPending d ds
  rw [hinsert, List.filter_append, List.filter_append, List.filter_cons_of_neg (by simp [hd])]

end Overlay
end Disassembly
