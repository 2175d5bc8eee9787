/-
# The overlay as a store

An overlay is used by calls, one after the other (`Call`, `answerAll`). What is pending is specified
by a plain list of directives in the order of their insertion: which of them a call returns, which it
removes and which it leaves (`Serves`). The directive that is taken comes first in the order of
ranges, and among those with its range it was inserted first (`IsFirst`). Whatever the calls, an
overlay that was empty before answers as the list does and holds the list sorted, nothing is lost and
nothing is there twice; so emptying an overlay sorts what it was made from (`pending_serves`).
-/

import Disassembly.Proofs.Overlay.Kept

namespace Disassembly
namespace Overlay

open Directive

/-- A use of an overlay. -/
inductive Call
  | insert (d : Directive)
  | takeActive (cursor : Nat)
  | takeComments (first last : Nat)
  | activate (d : Directive)
  | expire (cursor : Nat)

/-- What a call returns. -/
inductive Reply
  | done
  | directive (found : Option Directive)
  | comments (taken : List Comment)

/-- Carry out a call. -/
def answer (o : Overlay) : Call → Reply × Overlay
  | .insert d => (.done, o.insert d)
  | .takeActive cursor =>
    match o.takeActive cursor with
    | none => (.directive none, o)
    | some (d, rest) => (.directive (some d), rest)
  | .takeComments first last =>
    (.comments (o.takeComments first last).1, (o.takeComments first last).2)
  | .activate d => (.done, o.activate d)
  | .expire cursor => (.done, o.expire cursor)

/-- Carry out calls in order. -/
def answerAll (o : Overlay) : List Call → List Reply × Overlay
  | [] => ([], o)
  | call :: calls =>
    ((o.answer call).1 :: ((o.answer call).2.answerAll calls).1,
      ((o.answer call).2.answerAll calls).2)

/-- The directive that a call inserts. -/
def Call.inserted? : Call → Option Directive
  | insert d => some d
  | _ => none

/-! ### What the pending directives are to be -/

/-- Whether the directive can be taken at the cursor. -/
def isActive (cursor : Nat) (d : Directive) : Bool :=
  !d.isPlainComment && d.first.toNat ≤ cursor

/-- **The first of the directives of a kind**, in the order of ranges and then of insertion: those
that were inserted before it come later, and those that were inserted after it come no earlier. -/
structure IsFirst (kind : Directive → Bool) (front : List Directive) (d : Directive)
    (back : List Directive) : Prop where
  holds : kind d = true
  before : ∀ e ∈ front, kind e = true → e.le d = false
  after : ∀ e ∈ back, kind e = true → d.le e = true

/-- What a call does to a list of directives in the order of their insertion: what it returns, what
it removes and what it leaves. -/
inductive Serves : List Directive → Call → Reply → List Directive → List Directive → Prop
  | insert (store : List Directive) (d : Directive) :
      Serves store (.insert d) .done [] (store ++ [d])
  | take (cursor : Nat) {front back : List Directive} {d : Directive}
      (first : IsFirst (isActive cursor) front d back) :
      Serves (front ++ d :: back) (.takeActive cursor) (.directive (some d)) [d] (front ++ back)
  | takeNone (cursor : Nat) {store : List Directive}
      (none : ∀ d ∈ store, isActive cursor d = false) :
      Serves store (.takeActive cursor) (.directive .none) [] store
  | takeComments (store : List Directive) (first last : Nat) :
      Serves store (.takeComments first last)
        (.comments (((sort store).filter fun d => d.isPlainComment && (d.first.toNat ≤ last &&
          first ≤ d.last.toNat)).filterMap comment?))
        (store.filter fun d => d.isPlainComment && d.first.toNat ≤ last)
        (store.filter fun d => !(d.isPlainComment && d.first.toNat ≤ last))
  | activate (store : List Directive) (d : Directive) : Serves store (.activate d) .done [] store
  | expire (store : List Directive) (cursor : Nat) : Serves store (.expire cursor) .done [] store

/-- What calls do to a list of directives, one after the other. -/
inductive ServesAll :
    List Directive → List Call → List Reply → List Directive → List Directive → Prop
  | nil (store : List Directive) : ServesAll store [] [] [] store
  | cons {store middle left removed removed' : List Directive} {call : Call} {calls : List Call}
      {reply : Reply} {replies : List Reply} (head : Serves store call reply removed middle)
      (tail : ServesAll middle calls replies removed' left) :
      ServesAll store (call :: calls) (reply :: replies) (removed ++ removed') left

variable {store left removed : List Directive} {call : Call} {calls : List Call} {reply : Reply}
  {replies : List Reply} {o : Overlay} {d : Directive} {cursor : Nat}

/-- A call keeps or removes each directive, and keeps the order of insertion. -/
theorem Serves.conserves (h : Serves store call reply removed left) :
    left.Sublist (store ++ call.inserted?.toList) ∧
      (removed ++ left).Perm (store ++ call.inserted?.toList) := by
  cases h with
  | insert store d => exact ⟨List.Sublist.refl _, List.Perm.refl _⟩
  | @take cursor front back d first =>
    simp only [Call.inserted?, Option.toList_none, List.append_nil]
    refine ⟨(List.Sublist.refl front).append (List.sublist_cons_self d back), ?_⟩
    rw [List.singleton_append]
    exact List.perm_middle.symm
  | takeNone cursor none => simp [Call.inserted?]
  | takeComments store first last =>
    simp only [Call.inserted?, Option.toList_none, List.append_nil]
    exact ⟨List.filter_sublist, List.filter_append_perm _ store⟩
  | activate store d => simp [Call.inserted?]
  | expire store cursor => simp [Call.inserted?]

/-- **Calls keep or remove each directive that was inserted**, and what they keep is in the order of
insertion. -/
theorem ServesAll.conserves (h : ServesAll store calls replies removed left) :
    left.Sublist (store ++ calls.filterMap Call.inserted?) ∧
      (removed ++ left).Perm (store ++ calls.filterMap Call.inserted?) := by
  induction h with
  | nil store => simp
  | @cons store middle left removed removed' call calls reply replies head tail ih =>
    obtain ⟨hsublist, hperm⟩ := head.conserves
    have hsplit : store ++ (call :: calls).filterMap Call.inserted? =
        store ++ call.inserted?.toList ++ calls.filterMap Call.inserted? := by
      cases hcall : call.inserted? <;> simp [hcall]
    rw [hsplit]
    refine ⟨ih.1.trans (hsublist.append (List.Sublist.refl _)), ?_⟩
    have hrest := ih.2.append_left removed
    rw [← List.append_assoc, ← List.append_assoc] at hrest
    exact hrest.trans (hperm.append_right _)

/-! ### The pending directives are that -/

/-- Inserting a directive sorts it in. -/
theorem insertPending_sort (d : Directive) (ds : List Directive) :
    insertPending d (sort ds) = sort (ds ++ [d]) := by
  rw [insertPending_eq]
  exact Sorting.insertBehind_mergeSort Directive.le_trans Directive.le_total d ds

/-- Dropping directives does not disturb the order of the others. -/
theorem filter_sort_comm (p : Directive → Bool) (ds : List Directive) :
    (sort ds).filter p = sort (ds.filter p) :=
  Sorting.filter_mergeSort Directive.le_trans Directive.le_total p ds

/-- A list is cut in one way where an element is first met. -/
theorem append_cons_inj_of_not_mem {α : Type} {x : α} {front back front' back' : List α}
    (h : front ++ x :: back = front' ++ x :: back') (hfront : x ∉ front) (hfront' : x ∉ front') :
    front = front' ∧ back = back' := by
  induction front generalizing front' with
  | nil =>
    cases front' with
    | nil => exact ⟨rfl, (List.cons.inj h).2⟩
    | cons y ys =>
      obtain rfl : x = y := (List.cons.inj h).1
      exact absurd List.mem_cons_self hfront'
  | cons z zs ih =>
    cases front' with
    | nil =>
      obtain rfl : z = x := (List.cons.inj h).1
      exact absurd List.mem_cons_self hfront
    | cons y ys =>
      obtain ⟨rfl, hrest⟩ := List.cons.inj h
      obtain ⟨rfl, rfl⟩ := ih hrest (fun hmem => hfront (List.mem_cons_of_mem _ hmem))
        fun hmem => hfront' (List.mem_cons_of_mem _ hmem)
      exact ⟨rfl, rfl⟩

/-- A directive stands in a sorted list behind those of its range that were inserted before it. -/
theorem filter_sameRange_of_sort {front back skipped tail : List Directive}
    (h : sort (front ++ d :: back) = skipped ++ d :: tail) (hfront : d ∉ front)
    (hskipped : d ∉ skipped) (e : Directive) :
    skipped.filter (sameRange e) = front.filter (sameRange e) ∧
        tail.filter (sameRange e) = back.filter (sameRange e) ∨
      sameRange e d = false := by
  cases hd : sameRange e d with
  | false => exact .inr rfl
  | true =>
    have hrange := filter_sort e (front ++ d :: back)
    rw [h, List.filter_append, List.filter_append, List.filter_cons_of_pos hd,
      List.filter_cons_of_pos hd] at hrange
    exact .inl (append_cons_inj_of_not_mem hrange
      (fun hmem => hskipped (List.mem_filter.1 hmem).1)
      fun hmem => hfront (List.mem_filter.1 hmem).1)

/-- Taking a directive out of a sorted list is taking it out before sorting. -/
theorem sort_remove {front back skipped tail : List Directive}
    (h : sort (front ++ d :: back) = skipped ++ d :: tail) (hfront : d ∉ front)
    (hskipped : d ∉ skipped) : skipped ++ tail = sort (front ++ back) := by
  have hsorted : Sorted (skipped ++ d :: tail) := h ▸ sorted_sort _
  refine eq_of_sorted_of_filter_eq (hsorted.sublist
    ((List.Sublist.refl skipped).append (List.sublist_cons_self d tail))) (sorted_sort _)
    fun e => ?_
  rw [filter_sort, List.filter_append, List.filter_append]
  rcases filter_sameRange_of_sort h hfront hskipped e with ⟨hs, ht⟩ | hd
  · rw [hs, ht]
  · have hrange := filter_sort e (front ++ d :: back)
    rwa [h, List.filter_append, List.filter_append, List.filter_cons_of_neg (by simp [hd]),
      List.filter_cons_of_neg (by simp [hd])] at hrange

/-- **The directive that is taken from a sorted list is the first that can be taken.** -/
theorem exists_isFirst {rest : List Directive}
    (h : takeActivePending cursor (sort store) = some (d, rest)) :
    ∃ front back, store = front ++ d :: back ∧ IsFirst (isActive cursor) front d back ∧
      rest = sort (front ++ back) := by
  obtain ⟨skipped, tail, hsort, rfl, hplain, hd, hfirst⟩ := takeActivePending_eq_some h
  have hskipped : d ∉ skipped := fun hmem => by simp [hplain d hmem] at hd
  have hmem : d ∈ store := by
    have hsorted : d ∈ sort store := hsort ▸ List.mem_append_right _ List.mem_cons_self
    exact List.mem_mergeSort.1 hsorted
  obtain ⟨front, back, rfl, hfront⟩ := List.eq_append_cons_of_mem hmem
  have hsorted : Sorted (skipped ++ d :: tail) := hsort ▸ sorted_sort _
  -- What can be taken is no plain comment, so it stands at the directive or behind it.
  have hbehind (e : Directive) (he : e ∈ front ++ d :: back) (hactive : isActive cursor e = true) :
      e = d ∨ e ∈ tail := by
    have he : e ∈ skipped ++ d :: tail := hsort ▸ List.mem_mergeSort.2 he
    rcases List.mem_append.1 he with hskip | hrest
    · simp [isActive, hplain e hskip] at hactive
    · exact List.mem_cons.1 hrest
  have hle (e : Directive) (he : e = d ∨ e ∈ tail) : d.le e = true :=
    Sorted.head_le (hsorted.sublist (List.sublist_append_right skipped _)) (List.mem_cons.2 he)
  refine ⟨front, back, rfl, ⟨by simp [isActive, hd, hfirst], fun e he hactive => ?_,
    fun e he hactive => ?_⟩, sort_remove hsort hfront hskipped⟩
  · -- One with the same range that was inserted before would have been taken.
    refine Bool.eq_false_iff.2 fun hed => ?_
    have hde := hle e (hbehind e (List.mem_append_left _ he) hactive)
    have hrange : sameRange d e = true := by
      rw [sameRange_eq, Sorting.sameRank, hde, hed]
      rfl
    rcases filter_sameRange_of_sort hsort hfront hskipped d with ⟨hs, -⟩ | hself
    · have hskip : e ∈ skipped.filter (sameRange d) := hs ▸ List.mem_filter.2 ⟨he, hrange⟩
      simp [isActive, hplain e (List.mem_filter.1 hskip).1] at hactive
    · simp [sameRange] at hself
  · exact hle e (hbehind e (List.mem_append_right _ (List.mem_cons_of_mem d he)) hactive)

/-- Taking a directive takes the first of the list, or there is none to take. -/
theorem exists_serves_takeActive (h : o.pending = sort store) (cursor : Nat) :
    ∃ removed left, Serves store (.takeActive cursor) (o.answer (.takeActive cursor)).1 removed left ∧
      (o.answer (.takeActive cursor)).2.pending = sort left := by
  cases taken : o.takeActive cursor with
  | none =>
    refine ⟨[], store, ?_, ?_⟩
    · simp only [answer, taken]
      refine .takeNone cursor fun d hd => Bool.eq_false_iff.2 fun hactive => ?_
      rw [isActive, Bool.and_eq_true, Bool.not_eq_true', decide_eq_true_eq] at hactive
      have hplain := isPlainComment_of_takeActive_eq_none taken
        (h ▸ List.mem_mergeSort.2 hd) hactive.2
      simp [hplain] at hactive
    · simp only [answer, taken, h]
  | some found =>
    obtain ⟨d, rest⟩ := found
    have hfound := takeActivePending_of_takeActive taken
    rw [h] at hfound
    obtain ⟨front, back, rfl, hfirst, hrest⟩ := exists_isFirst hfound
    refine ⟨[d], front ++ back, ?_, ?_⟩
    · simp only [answer, taken]
      exact .take cursor hfirst
    · simp only [answer, taken, hrest]

/-- Taking the comments up to an address removes them from the list. -/
theorem exists_serves_takeComments (h : o.pending = sort store) (first last : Nat) :
    ∃ removed left, Serves store (.takeComments first last)
        (o.answer (.takeComments first last)).1 removed left ∧
      (o.answer (.takeComments first last)).2.pending = sort left := by
  have hserves := Serves.takeComments store first last
  have hfilter : (o.pending.filter fun d => d.isPlainComment && (d.first.toNat ≤ last &&
      first ≤ d.last.toNat)) = (o.pending.filter isPlainComment).filter
        fun d => d.first.toNat ≤ last && first ≤ d.last.toNat := by
    rw [List.filter_filter]
    exact List.filter_congr fun d _ => Bool.and_comm _ _
  rw [← h, hfilter, ← takeComments_fst] at hserves
  refine ⟨_, _, hserves, ?_⟩
  rw [← filter_sort_comm, ← h]
  exact pending_takeComments o first last

/-- **An overlay answers a call as the list does**, and holds sorted what the list holds. -/
theorem exists_serves (h : o.pending = sort store) (call : Call) :
    ∃ removed left, Serves store call (o.answer call).1 removed left ∧
      (o.answer call).2.pending = sort left := by
  cases call with
  | insert d =>
    refine ⟨_, _, .insert store d, ?_⟩
    rw [← insertPending_sort, ← h]
    exact pending_insert o d
  | takeActive cursor => exact exists_serves_takeActive h cursor
  | takeComments first last => exact exists_serves_takeComments h first last
  | activate d => exact ⟨_, _, .activate store d, h⟩
  | expire cursor => exact ⟨_, _, .expire store cursor, h⟩

/-- **An overlay answers any calls as the list does.** -/
theorem exists_servesAll (h : o.pending = sort store) (calls : List Call) :
    ∃ removed left, ServesAll store calls (o.answerAll calls).1 removed left ∧
      (o.answerAll calls).2.pending = sort left := by
  induction calls generalizing o store with
  | nil => exact ⟨[], store, .nil store, h⟩
  | cons call calls ih =>
    obtain ⟨removed, middle, hserves, hmiddle⟩ := exists_serves h call
    obtain ⟨removed', left, hrest, hleft⟩ := ih hmiddle
    exact ⟨removed ++ removed', left, .cons hserves hrest, hleft⟩

/-! ### Emptying an overlay -/

/-- Take directives that have started by the cursor until none is left. -/
def drain (cursor : Nat) (o : Overlay) : List Directive × Overlay :=
  match _h : o.takeActive cursor with
  | none => ([], o)
  | some (d, rest) => (d :: (drain cursor rest).1, (drain cursor rest).2)
termination_by o.pending.length
decreasing_by
  all_goals
    have hlength := (takeActive_sublist _h).2.2.1
    omega

/-- Every directive has started by the last address. -/
theorem first_le_top (d : Directive) : d.first.toNat ≤ 0xFFFF := Nat.le_of_lt_succ d.first.toNat_lt

/-- **Taking directives until none is left takes them in order and leaves the plain comments.** -/
theorem drain_eq (o : Overlay) :
    (drain 0xFFFF o).1 = o.pending.filter (fun d => !d.isPlainComment) ∧
      (drain 0xFFFF o).2.pending = o.pending.filter isPlainComment := by
  fun_induction drain 0xFFFF o with
  | case1 o hnone =>
    have hplain : ∀ d ∈ o.pending, d.isPlainComment = true := fun d hd =>
      isPlainComment_of_takeActive_eq_none hnone hd (first_le_top d)
    exact ⟨(List.filter_eq_nil_iff.2 fun d hd => by simp [hplain d hd]).symm,
      (List.filter_eq_self.2 hplain).symm⟩
  | case2 o d rest taken ih =>
    obtain ⟨skipped, tail, hds, hrest, hskipped, hplain, -⟩ := takeActive_split taken
    have hnil : skipped.filter (fun d => !d.isPlainComment) = [] :=
      List.filter_eq_nil_iff.2 fun e he => by simp [hskipped e he]
    rw [ih.1, ih.2, hds, hrest]
    simp [List.filter_append, hnil, hplain]

/-- **The pending directives are a stable sorted list.** Whatever calls an overlay is given that was
empty before, it answers as the plain list in the order of insertion does and holds that list sorted;
what was inserted is what has been removed and what is left, each as often as it was inserted. In
particular, taking directives at the last address until none is left and then all comments gives the
directives that are not plain comments and the plain comments, both in the order of sorting, and
leaves nothing. -/
theorem pending_serves :
    (∀ calls : List Call, ∃ removed left,
      ServesAll [] calls ((ofList []).answerAll calls).1 removed left ∧
        ((ofList []).answerAll calls).2.pending = sort left ∧
        left.Sublist (calls.filterMap Call.inserted?) ∧
        (removed ++ left).Perm (calls.filterMap Call.inserted?)) ∧
    ∀ ds : List Directive,
      (drain 0xFFFF (ofList ds)).1 = (sort ds).filter (fun d => !d.isPlainComment) ∧
        ((drain 0xFFFF (ofList ds)).2.takeComments 0 0xFFFF).1 =
          ((sort ds).filter isPlainComment).filterMap comment? ∧
        ((drain 0xFFFF (ofList ds)).2.takeComments 0 0xFFFF).2.pending = [] := by
  refine ⟨fun calls => ?_, fun ds => ?_⟩
  · have hempty : (ofList []).pending = sort [] := pending_ofList []
    obtain ⟨removed, left, hserves, hleft⟩ := exists_servesAll hempty calls
    obtain ⟨hsublist, hperm⟩ := hserves.conserves
    exact ⟨removed, left, hserves, hleft, hsublist, hperm⟩
  · have hpending := pending_ofList ds
    obtain ⟨hdrained, hleft⟩ := drain_eq (ofList ds)
    rw [hpending] at hdrained hleft
    refine ⟨hdrained, ?_, ?_⟩
    · rw [takeComments_fst, hleft]
      simp only [List.filter_filter, Bool.and_self]
      refine congrArg (List.filterMap comment?) (List.filter_congr fun d _ => ?_)
      simp [first_le_top d]
    · rw [pending_takeComments, hleft]
      refine List.filter_eq_nil_iff.2 fun d hd => ?_
      have hplain := (List.mem_filter.1 hd).2
      simp [isDue, hplain, first_le_top d]

end Overlay
end Disassembly
