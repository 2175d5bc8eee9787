/-
# What becomes of comments

As long as nothing is added, the overlay can be read off the directives that it was made from and the
place that a walk has come to (`Kept`). Plain comments are pending until a line takes them: those that
start on the line, and on the first line also those that start before the window
(`Kept.takeComments`). Comments on operands are pending or in effect until they end, and all those
whose range holds the cursor are in effect when no directive is left to take up
(`Kept.count_live`).
-/

import Disassembly.Proofs.Overlay.Taking

namespace Disassembly

namespace Directive

/-- Whether the directive is a comment on operands. -/
def isMatcher (d : Directive) : Bool :=
  match d.annotation with
  | .reference .. | .displacement .. => true
  | _ => false

/-- Whether a comment on operands is about the operand: the operand is of a kind that it looks at,
and has the value that it looks for. -/
def isAbout (operand : Z80.Operand) (d : Directive) : Bool :=
  match d.annotation with
  | .reference _ matching value _ => matching.value? operand = some value
  | .displacement _ matching value _ => matching.value? operand = some value
  | _ => false

/-- The comment that the directive makes, if it makes one. -/
def comment? (d : Directive) : Option Overlay.Comment :=
  match d.annotation with
  | .comment position text | .reference position _ _ text | .displacement position _ _ text =>
    some (position, text)
  | _ => none

/-- Whether a plain comment belongs on the line of `length` bytes at an address: it starts there, or
before the window if the line is the first, and does not end before the line. -/
def fallsOn (origin address length : Nat) (d : Directive) : Bool :=
  d.isPlainComment && (address = origin || address ≤ d.first.toNat) &&
    d.first.toNat < address + length && address ≤ d.last.toNat

/-- What is about an operand is a comment on operands. -/
theorem isMatcher_of_isAbout {operand : Z80.Operand} {d : Directive}
    (h : d.isAbout operand = true) : d.isMatcher = true := by
  unfold isAbout at h
  unfold isMatcher
  cases ha : d.annotation <;> simp [ha] at h ⊢

/-- A comment on operands is no plain comment. -/
theorem isPlainComment_of_isMatcher {d : Directive} (h : d.isMatcher = true) :
    d.isPlainComment = false := by
  unfold isMatcher at h
  unfold isPlainComment
  cases ha : d.annotation <;> simp [ha] at h ⊢

variable (origin address length : Nat) (ds : List Directive)

/-- What falls on a line is a plain comment. -/
theorem isPlainComment_of_fallsOn {d : Directive} (h : d.fallsOn origin address length = true) :
    d.isPlainComment = true := by
  simp only [fallsOn, Bool.and_eq_true] at h
  exact h.1.1.1

theorem filter_plain_fallsOn :
    (ds.filter (fallsOn origin address length)).filter isPlainComment =
      ds.filter (fallsOn origin address length) :=
  List.filter_eq_self.2 fun _ hd =>
    isPlainComment_of_fallsOn origin address length (List.mem_filter.1 hd).2

theorem count_fallsOn {d : Directive} (hmatcher : d.isMatcher = true) :
    (ds.filter (fallsOn origin address length)).count d = 0 := by
  refine List.count_eq_zero.2 fun hd => ?_
  have hplain := isPlainComment_of_fallsOn origin address length (List.mem_filter.1 hd).2
  rw [isPlainComment_of_isMatcher hmatcher] at hplain
  exact absurd hplain (by decide)

end Directive

namespace Overlay

open Directive

/-- The overlay of a walk that has come to the cursor: what is pending is left of the directives,
with the plain comments that start from the cursor on, or all of them at the origin; and the comments
on operands that have not ended are pending or in effect. -/
structure Kept (origin cursor : Nat) (ds : List Directive) (o : Overlay) : Prop where
  pending_sublist : o.pending.Sublist (sort ds)
  plain : o.pending.filter isPlainComment = (sort ds).filter fun d =>
    d.isPlainComment && (cursor = origin || cursor ≤ d.first.toNat)
  matchers : ∀ d, d.isMatcher = true → cursor ≤ d.last.toNat →
    o.live.count d + o.pending.count d = ds.count d

variable {origin cursor length : Nat} {ds : List Directive} {o o' : Overlay} {d : Directive}

/-- At the origin all directives are pending. -/
theorem kept_ofList (origin : Nat) (ds : List Directive) : Kept origin origin ds (ofList ds) := by
  have hpending := pending_ofList ds
  have hlive := live_ofList ds
  refine ⟨hpending ▸ List.Sublist.refl _, ?_, fun d _ _ => ?_⟩
  · rw [hpending]
    refine List.filter_congr fun d _ => ?_
    simp
  · rw [hpending, hlive, List.count_nil, Nat.zero_add]
    exact (List.mergeSort_perm ds Directive.le).count_eq d

/-- A directive that is taken is one of those given. -/
theorem Kept.mem_of_takeActive (h : Kept origin cursor ds o)
    (taken : o.takeActive cursor = some (d, o')) : d ∈ ds :=
  List.mem_mergeSort.1 (h.pending_sublist.subset (takeActive_sublist taken).1)

/-- Dropping what has ended keeps the rest. -/
theorem count_dropWhile {p : Directive → Bool} (hd : p d = false) (l : List Directive) :
    (l.dropWhile p).count d = l.count d := by
  induction l with
  | nil => rfl
  | cons x xs ih =>
    rw [List.dropWhile_cons]
    split
    · rename_i hx
      have hne : x ≠ d := by
        rintro rfl
        exact absurd hx (by simp [hd])
      rw [ih, List.count_cons_of_ne hne]
    · rfl

theorem Kept.expire (h : Kept origin cursor ds o) : Kept origin cursor ds (o.expire cursor) := by
  refine ⟨h.pending_sublist, h.plain, fun d hmatcher hlast => ?_⟩
  rw [← h.matchers d hmatcher hlast, pending_expire, Overlay.expire,
    count_dropWhile (by simpa using hlast)]

/-- A comment that comes into effect is there once more. -/
theorem count_activateLive (d e : Directive) (live : List Directive) :
    (activateLive d live).count e = live.count e + if d = e then 1 else 0 := by
  induction live with
  | nil =>
    rw [activateLive, List.count_cons]
    simp
  | cons x xs ih =>
    rw [activateLive]
    split
    · rw [List.count_cons]
      simp
    · rw [List.count_cons, List.count_cons, ih]
      omega

/-- What is left behind a directive that is taken: the others, with the plain comments where they
were. -/
theorem takeActive_eq_some (h : o.takeActive cursor = some (d, o')) :
    o'.pending.Sublist o.pending ∧ o'.live = o.live ∧
      o'.pending.filter isPlainComment = o.pending.filter isPlainComment ∧
      ∀ e, o.pending.count e = o'.pending.count e + if d = e then 1 else 0 := by
  obtain ⟨-, hsublist, -, hlive⟩ := takeActive_sublist h
  obtain ⟨skipped, tail, hds, hrest, -, hplain, -⟩ := takeActive_split h
  refine ⟨hsublist, hlive, ?_, fun e => ?_⟩
  · rw [hds, hrest, List.filter_append, List.filter_append,
      List.filter_cons_of_neg (Bool.eq_false_iff.1 hplain)]
  · rw [hds, hrest, List.count_append, List.count_append, List.count_cons]
    simp only [beq_iff_eq]
    omega

/-- **A directive that is taken is a comment on operands and comes into effect, or is no loss.** -/
theorem Kept.takeActive {p : Overlay} (h : Kept origin cursor ds o)
    (taken : o.takeActive cursor = some (d, o')) (hp : p.pending = o'.pending)
    (hlive : p.live = activateLive d o.live ∨
      (p.live = o.live ∧ (d.last.toNat < cursor ∨ d.isMatcher = false))) :
    Kept origin cursor ds p := by
  obtain ⟨hsublist, -, hplain, hcount⟩ := takeActive_eq_some taken
  rw [← hp] at hsublist hplain hcount
  refine ⟨hsublist.trans h.pending_sublist, hplain.trans h.plain, fun e hmatcher hlast => ?_⟩
  have hkept := h.matchers e hmatcher hlast
  have htaken := hcount e
  rcases hlive with hlive | ⟨hlive, hd⟩
  · rw [hlive, count_activateLive]
    omega
  · have hne : d ≠ e := by
      rintro rfl
      rcases hd with hended | hother
      · omega
      · exact absurd hmatcher (by simp [hother])
    rw [if_neg hne] at htaken
    rw [hlive]
    omega

/-- A line takes the plain comments that start before its end and do not end before it. -/
theorem takeComments_fst (o : Overlay) (first last : Nat) :
    (o.takeComments first last).1 =
      ((o.pending.filter isPlainComment).filter
        fun d => d.first.toNat ≤ last && first ≤ d.last.toNat).filterMap comment? := by
  rw [fst_takeComments, List.filterMap_filter, List.filter_filter, List.filterMap_filter]
  refine List.filterMap_congr fun d _ => ?_
  cases hplain : d.isPlainComment with
  | false => simp [isDue, hplain]
  | true =>
    unfold isPlainComment at hplain
    unfold commentFrom? comment?
    cases ha : d.annotation <;> simp [ha] at hplain
    by_cases hlast : first ≤ d.last.toNat <;> simp [isDue, isPlainComment, ha, hlast]

/-- The comments in effect on an operand are those about it whose range holds the address. -/
theorem commentsOn_eq (o : Overlay) (address : Nat) (operand : Z80.Operand) :
    o.commentsOn address operand = (o.live.filter
      fun d => d.contains address && d.isAbout operand).filterMap comment? := by
  rw [Overlay.commentsOn, List.filterMap_filter]
  refine List.filterMap_congr fun d _ => ?_
  unfold commentOn? isAbout comment?
  cases hcontains : d.contains address with
  | false => simp
  | true => cases ha : d.annotation <;> simp

/-- **A line takes the plain comments that belong on it**, and leaves those that start behind it. -/
theorem Kept.takeComments (h : Kept origin cursor ds o) (horigin : origin ≤ cursor)
    (hlength : 0 < length) :
    (o.takeComments cursor (cursor + length - 1)).1 =
        ((sort ds).filter (fallsOn origin cursor length)).filterMap comment? ∧
      Kept origin (cursor + length) ds (o.takeComments cursor (cursor + length - 1)).2 := by
  refine ⟨?_, (takeComments_sublist o _ _).trans h.pending_sublist, ?_, fun d hmatcher hlast => ?_⟩
  · rw [takeComments_fst, h.plain, List.filter_filter]
    refine congrArg (List.filterMap comment?) (List.filter_congr fun d _ => ?_)
    have hdue : d.first.toNat ≤ cursor + length - 1 ↔ d.first.toNat < cursor + length := by omega
    simp only [fallsOn, hdue, Bool.and_comm, Bool.and_assoc, Bool.and_left_comm]
  · rw [pending_takeComments, List.filter_comm, h.plain, List.filter_filter]
    refine List.filter_congr fun d _ => ?_
    cases hplain : d.isPlainComment with
    | false => simp
    | true =>
      rw [Bool.eq_iff_iff]
      simp only [isDue, hplain, Bool.true_and, Bool.and_eq_true, Bool.or_eq_true,
        Bool.not_eq_true', decide_eq_true_eq, decide_eq_false_iff_not]
      omega
  · rw [← h.matchers d hmatcher (by omega), live_takeComments, pending_takeComments]
    refine congrArg (_ + ·) (List.count_filter ?_)
    simp [isDue, isPlainComment_of_isMatcher hmatcher]

/-- **When no directive is left to take up, every comment on operands whose range holds the cursor is
in effect.** -/
theorem Kept.count_live (h : Kept origin cursor ds o) (hnone : o.takeActive cursor = none)
    (hmatcher : d.isMatcher = true) (hcontains : d.contains cursor = true) :
    o.live.count d = ds.count d := by
  obtain ⟨hfirst, hlast⟩ : d.first.toNat ≤ cursor ∧ cursor ≤ d.last.toNat := by
    simpa [contains] using hcontains
  have hpending : o.pending.count d = 0 := by
    refine List.count_eq_zero.2 fun hmem => ?_
    have hplain := isPlainComment_of_takeActive_eq_none hnone hmem hfirst
    rw [isPlainComment_of_isMatcher hmatcher] at hplain
    exact absurd hplain (by decide)
  have hkept := h.matchers d hmatcher hlast
  omega

end Overlay
end Disassembly
