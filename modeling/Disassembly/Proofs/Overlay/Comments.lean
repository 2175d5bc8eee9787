/-
# Overlays that differ in comments

Comments are pending together with the directives that have an effect on the disassembly. Two
overlays are alike if they agree apart from comments, and no use of an overlay can tell them apart:
inserting the same directive and taking comments keeps them alike, and the first directive that is
taken from them and is not a comment is the same (`Alike.takeActive`).
-/

import Disassembly.Proofs.Overlay.Taking

namespace Disassembly

namespace Directive

/-- Whether the directive is a comment of any kind. -/
def isComment (d : Directive) : Bool :=
  match d.annotation with
  | .comment .. | .reference .. | .displacement .. => true
  | _ => false

theorem isComment_of_isPlainComment {d : Directive} (h : d.isPlainComment = true) :
    d.isComment = true := by
  unfold isPlainComment at h
  unfold isComment
  split at h
  · simp [*]
  · exact absurd h (by simp)

end Directive

namespace Overlay

open Directive

/-- The pending directives that are not comments. -/
def effective (o : Overlay) : List Directive := o.pending.filter fun d => !d.isComment

/-- Whether two overlays agree apart from comments. -/
def Alike (o o' : Overlay) : Prop := o.effective = o'.effective

variable {o o' p : Overlay} {d : Directive} {cursor : Nat}

theorem Alike.symm (h : Alike o o') : Alike o' o := Eq.symm h

/-- Comments in effect do not count. -/
theorem Alike.of_pending {p' : Overlay} (h : Alike o o') (hp : p.pending = o.pending)
    (hp' : p'.pending = o'.pending) : Alike p p' := by
  rw [Alike, effective, effective, hp, hp']
  exact h

/-- Inserting a directive that is kept commutes with dropping others. -/
theorem filter_insertPending_of_pos {keep : Directive → Bool} (hd : keep d = true)
    {ds : List Directive} (hs : Sorted ds) :
    (insertPending d ds).filter keep = insertPending d (ds.filter keep) := by
  refine eq_of_sorted_of_filter_eq ((sorted_insertPending d hs).sublist List.filter_sublist)
    (sorted_insertPending d (hs.sublist List.filter_sublist)) fun e => ?_
  have hkept : [d].filter keep = [d] := List.filter_cons_of_pos hd
  rw [List.filter_comm, filter_insertPending d e hs, List.filter_append,
    filter_insertPending d e (hs.sublist List.filter_sublist), ← List.filter_comm,
    ← List.filter_comm (l := [d]), hkept]

/-- Inserting the same directive keeps overlays alike. -/
theorem Alike.insert (h : Alike o o') (d : Directive) : Alike (o.insert d) (o'.insert d) := by
  have heq : o.pending.filter (fun d => !d.isComment) = o'.pending.filter fun d => !d.isComment := h
  rw [Alike, effective, effective, pending_insert, pending_insert]
  cases hd : d.isComment with
  | true =>
    rw [filter_insertPending_of_neg (by simp [hd]), filter_insertPending_of_neg (by simp [hd]), heq]
  | false =>
    rw [filter_insertPending_of_pos (by simp [hd]) o.sorted_pending,
      filter_insertPending_of_pos (by simp [hd]) o'.sorted_pending, heq]

/-- Taking comments takes nothing else. -/
theorem effective_takeComments (o : Overlay) (first last : Nat) :
    (o.takeComments first last).2.effective = o.effective := by
  refine filter_takeComments_of_not_plain (fun d hd => ?_) o first last
  cases hplain : d.isPlainComment with
  | true => exact absurd (isComment_of_isPlainComment hplain) (by simpa using hd)
  | false => rfl

/-- Taking comments keeps overlays alike, whichever comments are taken. -/
theorem Alike.takeComments (h : Alike o o') (first last : Nat) :
    Alike (o.takeComments first last).2 (o'.takeComments first last).2 := by
  rw [Alike, effective_takeComments, effective_takeComments]
  exact h

/-- Taking a comment leaves the directives that are not comments. -/
theorem effective_takeActive (h : o.takeActive cursor = some (d, p)) :
    o.effective = if d.isComment then p.effective else d :: p.effective := by
  obtain ⟨skipped, tail, hds, hrest, hskipped, -⟩ := takeActive_split h
  have hnil : skipped.filter (fun d => !d.isComment) = [] :=
    List.filter_eq_nil_iff.2 fun e he => by simp [isComment_of_isPlainComment (hskipped e he)]
  unfold effective
  rw [hds, hrest, List.filter_append, List.filter_append, hnil, List.nil_append, List.filter_cons]
  cases d.isComment <;> rfl

/-- Taking a comment from one of two overlays keeps them alike. -/
theorem Alike.takeComment (h : Alike o o') (taken : o.takeActive cursor = some (d, p))
    (hd : d.isComment = true) : Alike p o' := by
  rw [Alike, ← h, effective_takeActive taken, if_pos hd]

/-- **The same directives are taken from overlays that are alike**, unless a comment comes first. -/
theorem Alike.takeActive (h : Alike o o') (taken : o.takeActive cursor = some (d, p))
    (hd : d.isComment = false) :
    ∃ e p', o'.takeActive cursor = some (e, p') ∧ (e.isComment = true ∨ e = d ∧ Alike p p') := by
  have heffective := effective_takeActive taken
  rw [hd, if_neg (by simp), h] at heffective
  cases taken' : o'.takeActive cursor with
  | none =>
    have hmem : d ∈ o'.effective := heffective ▸ List.mem_cons_self
    obtain ⟨-, -, -, -, -, -, hfirst⟩ := takeActive_split taken
    have hplain := isPlainComment_of_takeActive_eq_none taken' (List.mem_filter.1 hmem).1 hfirst
    exact absurd (isComment_of_isPlainComment hplain) (by simp [hd])
  | some r =>
    obtain ⟨e, p'⟩ := r
    refine ⟨e, p', rfl, ?_⟩
    cases he : e.isComment with
    | true => exact .inl rfl
    | false =>
      rw [effective_takeActive taken', he, if_neg (by simp)] at heffective
      obtain ⟨rfl, htail⟩ := List.cons.inj heffective
      exact .inr ⟨rfl, htail.symm⟩

/-- Overlays of lists that agree apart from comments are alike. -/
theorem alike_ofList {ds ds' : List Directive}
    (h : ds.filter (fun d => !d.isComment) = ds'.filter fun d => !d.isComment) :
    Alike (ofList ds) (ofList ds') := by
  refine eq_of_sorted_of_filter_eq ((sorted_pending _).sublist List.filter_sublist)
    ((sorted_pending _).sublist List.filter_sublist) fun d => ?_
  rw [effective, effective, pending_ofList, pending_ofList, List.filter_comm, filter_sort,
    List.filter_comm, h, List.filter_comm, ← filter_sort d ds', List.filter_comm]

end Overlay
end Disassembly
