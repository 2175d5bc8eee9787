/-
# Comments in effect

Comments on operands come into effect one by one, and those that end before the cursor are dropped
from the front of a list. That is dropping all that have ended, because the list is in the order of
last addresses, and within one last address in the order of activation (`live_answerAll`,
`live_expire`). A comment that was dropped has no address from the cursor on in its range. So as long
as the cursors do not decrease, what is found from the last of them on is what a list would give from
which nothing is ever dropped (`commentsOn_answerAll`).
-/

import Disassembly.Proofs.Overlay.Store

namespace Disassembly
namespace Overlay

open Directive

/-- Whether a directive ends no later than another. -/
def endsNoLater (a b : Directive) : Bool := a.last.toNat ≤ b.last.toNat

/-- The directives in the order of their last addresses; equal last addresses keep their order. -/
def sortByLast (ds : List Directive) : List Directive := ds.mergeSort endsNoLater

/-- The comment that a call brings into effect. -/
def Call.activated? : Call → Option Directive
  | activate d => some d
  | _ => none

/-- The cursor at which a call drops what has ended. -/
def Call.expiredAt? : Call → Option Nat
  | expire cursor => some cursor
  | _ => none

/-- What a call does to the comments in effect, in the order of their activation. -/
def Call.inEffect (ds : List Directive) : Call → List Directive
  | activate d => ds ++ [d]
  | expire cursor => ds.filter fun d => cursor ≤ d.last.toNat
  | _ => ds

/-- The comments in effect after calls, in the order of their activation. -/
def inEffect (calls : List Call) : List Directive := calls.foldl Call.inEffect []

theorem endsNoLater_trans (a b c : Directive) (hab : endsNoLater a b = true)
    (hbc : endsNoLater b c = true) : endsNoLater a c = true := by
  simp only [endsNoLater, decide_eq_true_eq] at *
  omega

theorem endsNoLater_total (a b : Directive) : (endsNoLater a b || endsNoLater b a) = true := by
  simp only [endsNoLater, Bool.or_eq_true, decide_eq_true_eq]
  omega

/-- A comment comes into effect behind those that end no later. -/
theorem activateLive_eq (d : Directive) (ds : List Directive) :
    activateLive d ds = Sorting.insertBehind endsNoLater d ds := by
  induction ds with
  | nil => rfl
  | cons e es ih =>
    rw [activateLive, Sorting.insertBehind, ih]
    by_cases h : d.last < e.last
    · have hlate : endsNoLater e d = false := by
        rw [UInt16.lt_iff_toNat_lt] at h
        simpa [endsNoLater] using h
      rw [if_pos h, hlate, if_neg (by simp)]
    · have hsoon : endsNoLater e d = true := by
        rw [UInt16.lt_iff_toNat_lt] at h
        simpa [endsNoLater] using h
      rw [if_neg h, if_pos hsoon]

/-- Bringing a comment into effect sorts it in. -/
theorem activateLive_sortByLast (d : Directive) (ds : List Directive) :
    activateLive d (sortByLast ds) = sortByLast (ds ++ [d]) := by
  rw [activateLive_eq]
  exact Sorting.insertBehind_mergeSort endsNoLater_trans endsNoLater_total d ds

/-- Dropping directives does not disturb the order of the others. -/
theorem filter_sortByLast (p : Directive → Bool) (ds : List Directive) :
    (sortByLast ds).filter p = sortByLast (ds.filter p) :=
  Sorting.filter_mergeSort endsNoLater_trans endsNoLater_total p ds

variable {o : Overlay} {ds : List Directive}

/-- **Expiry drops exactly what has ended**, from comments in the order of last addresses. -/
theorem live_expire (h : o.live = sortByLast ds) (cursor : Nat) :
    (o.expire cursor).live = o.live.filter fun d => cursor ≤ d.last.toNat := by
  have hsorted : o.live.Pairwise fun a b => endsNoLater a b = true :=
    h ▸ List.pairwise_mergeSort endsNoLater_trans endsNoLater_total ds
  have hfront : o.live.Pairwise fun a b =>
      decide (b.last.toNat < cursor) = true → decide (a.last.toNat < cursor) = true :=
    hsorted.imp fun {a b} hab hb => by
      simp only [endsNoLater, decide_eq_true_eq] at hab hb ⊢
      omega
  rw [Overlay.expire, Sorting.dropWhile_eq_filter hfront]
  refine List.filter_congr fun d _ => ?_
  rw [← decide_not, decide_eq_decide, Nat.not_lt]

/-- A call leaves the comments in effect in the order of last addresses. -/
theorem live_answer (h : o.live = sortByLast ds) (call : Call) :
    (o.answer call).2.live = sortByLast (call.inEffect ds) := by
  cases call with
  | insert d => exact h
  | takeActive cursor =>
    simp only [answer]
    split
    · exact h
    · rename_i taken
      exact (takeActive_sublist taken).2.2.2.trans h
  | takeComments first last => exact (live_takeComments o first last).trans h
  | activate d =>
    rw [Call.inEffect, ← activateLive_sortByLast, ← h]
    rfl
  | expire cursor =>
    rw [Call.inEffect, ← filter_sortByLast, ← h]
    exact live_expire h cursor

/-- **The comments in effect are in the order of last addresses**, and those with equal last
addresses in the order of activation. -/
theorem live_answerAll (h : o.live = sortByLast ds) (calls : List Call) :
    (o.answerAll calls).2.live = sortByLast (calls.foldl Call.inEffect ds) := by
  induction calls generalizing o ds with
  | nil => exact h
  | cons call calls ih => exact ih (live_answer h call)

/-- **What has been dropped holds no address that no cursor has passed.** -/
theorem filter_contains_inEffect {address : Nat} {calls : List Call}
    (h : ∀ cursor ∈ calls.filterMap Call.expiredAt?, cursor ≤ address) :
    (calls.foldl Call.inEffect ds).filter (·.contains address) =
      (ds ++ calls.filterMap Call.activated?).filter (·.contains address) := by
  induction calls generalizing ds with
  | nil => simp
  | cons call calls ih =>
    have hrest : ∀ cursor ∈ calls.filterMap Call.expiredAt?, cursor ≤ address := fun cursor hc =>
      h cursor (((List.sublist_cons_self call calls).filterMap _).subset hc)
    have hsplit : (call :: calls).filterMap Call.activated? =
        call.activated?.toList ++ calls.filterMap Call.activated? := by
      cases hcall : call.activated? <;> simp [hcall]
    rw [List.foldl_cons, ih hrest, hsplit, List.filter_append, List.filter_append]
    cases call with
    | activate d =>
      rw [Call.inEffect, List.filter_append, List.append_assoc, ← List.filter_append]
      rfl
    | expire cursor =>
      have hcursor : cursor ≤ address := h cursor (by simp [Call.expiredAt?])
      have hkept : (ds.filter fun d => cursor ≤ d.last.toNat).filter (·.contains address) =
          ds.filter (·.contains address) := by
        rw [List.filter_filter]
        refine List.filter_congr fun d _ => ?_
        cases hcontains : d.contains address with
        | false => rfl
        | true =>
          rw [contains_iff] at hcontains
          simp only [Bool.true_and, decide_eq_true_eq]
          omega
      rw [Call.inEffect, hkept]
      rfl
    | insert d | takeActive cursor | takeComments first last => rfl

/-- The last of numbers that do not decrease is the greatest. -/
theorem le_of_getLast? {ns : List Nat} {address : Nat} (hns : ns.Pairwise (· ≤ ·))
    (h : ∀ n, ns.getLast? = some n → n ≤ address) : ∀ n ∈ ns, n ≤ address := by
  intro n hn
  obtain ⟨front, last, rfl⟩ := List.eq_nil_or_concat' ns |>.resolve_left (List.ne_nil_of_mem hn)
  have hlast := h last (by simp)
  rcases List.mem_append.1 hn with hfront | hsingle
  · exact Nat.le_trans ((List.pairwise_append.1 hns).2.2 n hfront last List.mem_cons_self) hlast
  · rw [List.mem_singleton.1 hsingle]
    exact hlast

/-- **Expiry cannot be observed.** Whatever calls an overlay is given that was empty before, its
comments in effect are in the order of last addresses and then of activation, and expiry at any
cursor drops exactly those that end before it. If the cursors of the calls do not decrease, then at
every address from the last of them on, and for every operand, the comments found are those of all
directives ever activated whose range holds the address and which are about the operand, in that
order. -/
theorem commentsOn_answerAll (calls : List Call) :
    ((ofList []).answerAll calls).2.live = sortByLast (inEffect calls) ∧
      (∀ cursor, (((ofList []).answerAll calls).2.expire cursor).live =
        ((ofList []).answerAll calls).2.live.filter fun d => cursor ≤ d.last.toNat) ∧
      ((calls.filterMap Call.expiredAt?).Pairwise (· ≤ ·) → ∀ address,
        (∀ cursor, (calls.filterMap Call.expiredAt?).getLast? = some cursor → cursor ≤ address) →
          ∀ operand, ((ofList []).answerAll calls).2.commentsOn address operand =
            ((sortByLast (calls.filterMap Call.activated?)).filter
              fun d => d.contains address && d.isAbout operand).filterMap comment?) := by
  have hempty : (ofList []).live = sortByLast [] := (List.mergeSort_nil).symm
  have hlive : ((ofList []).answerAll calls).2.live = sortByLast (inEffect calls) :=
    live_answerAll hempty calls
  refine ⟨hlive, live_expire hlive, fun hcursors address haddress operand => ?_⟩
  have hkept : (inEffect calls).filter (·.contains address) =
      ([] ++ calls.filterMap Call.activated?).filter (·.contains address) :=
    filter_contains_inEffect (le_of_getLast? hcursors haddress)
  rw [List.nil_append] at hkept
  have hfilter (ds : List Directive) :
      (sortByLast ds).filter (fun d => d.contains address && d.isAbout operand) =
        (sortByLast (ds.filter (·.contains address))).filter (·.isAbout operand) := by
    rw [← filter_sortByLast, List.filter_filter]
    exact List.filter_congr fun d _ => Bool.and_comm _ _
  rw [commentsOn_eq, hlive, hfilter, hfilter, hkept]

/-- Two comments on the same word, of which one has ended when the cursor is at 8003: the one that
is left is found, and the one that has ended is not. -/
theorem commentsOn_answerAll_sample :
    let early : Directive := ⟨0x8000, 0x8002, .reference .endOfLine .both 0x5C00 "early"⟩
    let late : Directive := ⟨0x8000, 0x8005, .reference .before .number 0x5C00 "late"⟩
    let calls : List Call := [.activate late, .expire 0x8000, .activate early, .expire 0x8003]
    (calls.filterMap Call.expiredAt?).Pairwise (· ≤ ·) ∧
      ((ofList []).answerAll calls).2.live = [late] ∧
      ((ofList []).answerAll calls).2.commentsOn 0x8004 (.number 0x5C00) =
        ((sortByLast [late, early]).filter
          fun d => d.contains 0x8004 && d.isAbout (.number 0x5C00)).filterMap comment? := by
  intro early late calls
  have hcursors : (calls.filterMap Call.expiredAt?).Pairwise (· ≤ ·) := by decide
  have hlast : ∀ cursor, (calls.filterMap Call.expiredAt?).getLast? = some cursor →
      cursor ≤ 0x8004 := by
    intro cursor h
    obtain rfl : (0x8003 : Nat) = cursor := Option.some.inj h
    decide
  exact ⟨hcursors, rfl, (commentsOn_answerAll calls).2.2 hcursors 0x8004 hlast (.number 0x5C00)⟩

end Overlay
end Disassembly
