/-
# The scope of a line

Format directives are taken up in the order of their ranges, each at the first line at or behind its
first address, if it has not ended there. What it then pushes is the scope in effect, changed, and
that stays until the range has ended (`scopeAt`). So a change outlives its range where a later
range starts inside it and ends behind it: the later range has kept a scope that was changed. Where
no two ranges overlap in that way, the scope of a line is the base scope with the changes of the
ranges that hold its address (`scopeAt_of_nested`). The walk lists every instruction with the scope
that `scopeAt` gives (`walk_scopes`).
-/

import Disassembly.Proofs.Walk.RawBlock
import Disassembly.Proofs.Walk.Record
import Mathlib.Data.List.Induction

namespace Disassembly

namespace Directive

/-- Whether the directive changes the format. -/
def isFormat (d : Directive) : Bool :=
  match d.annotation with
  | .format _ => true
  | _ => false

/-- The scope with the change of a format directive. -/
def restyle (d : Directive) (scope : Scope) : Scope :=
  match d.annotation with
  | .format change => change.apply scope
  | _ => scope

/-- The format directives, in the order in which they are taken up. -/
def formats (ds : List Directive) : List Directive := (sort ds).filter isFormat

theorem isPlainComment_of_isFormat {d : Directive} (h : d.isFormat = true) :
    d.isPlainComment = false := by
  unfold isFormat at h
  unfold isPlainComment
  cases ha : d.annotation <;> simp [ha] at h ⊢

end Directive

namespace Walk

open Directive

/-! ### The scopes that formats give -/

/-- The line at which a directive is taken up: the first at or behind its first address. -/
def lineOf (lines : List Nat) (d : Directive) : Nat :=
  (lines.find? fun a => d.first.toNat ≤ a).getD 0

/-- **The scope at an address**, given the addresses of the lines and the formats, the latest first.
The latest format whose range holds the address changes the scope that the formats before it gave at
the line at which it was taken up. -/
def scopeAt (base : Scope) (lines : List Nat) : List Directive → Nat → Scope
  | [], _ => base
  | d :: earlier, a =>
    if d.contains a then d.restyle (scopeAt base lines earlier (lineOf lines d))
    else scopeAt base lines earlier a

/-- The scopes that formats have pushed and that have not ended, the latest first. -/
def pushedAt (base : Scope) (lines : List Nat) : List Directive → Nat → List (UInt16 × Scope)
  | [], _ => []
  | d :: earlier, a =>
    if d.contains a then
      (d.last, d.restyle (scopeAt base lines earlier (lineOf lines d))) ::
        pushedAt base lines earlier a
    else pushedAt base lines earlier a

/-- The base scope with the changes of the formats whose ranges hold an address, in order. -/
def scopeOver (base : Scope) (formats : List Directive) (a : Nat) : Scope :=
  (formats.filter (·.contains a)).foldl (fun scope d => d.restyle scope) base

/-- Directives of which none starts inside the range of one before it and ends behind that range. -/
def Nested (ds : List Directive) : Prop :=
  ds.Pairwise fun d e => d.last.toNat < e.first.toNat ∨ e.last.toNat ≤ d.last.toNat

instance (ds : List Directive) : Decidable (Nested ds) :=
  inferInstanceAs (Decidable (ds.Pairwise _))

variable {base : Scope} {lines past : List Nat} {ds : List Directive} {d : Directive}
  {a b : Nat}

/-- The scope in effect is the latest that was pushed. -/
theorem current_pushedAt (base : Scope) (lines : List Nat) (ds : List Directive) (a : Nat) :
    (⟨base, pushedAt base lines ds a⟩ : Scope.Stack).current = scopeAt base lines ds a := by
  induction ds with
  | nil => rfl
  | cons d ds ih =>
    rw [pushedAt, scopeAt]
    by_cases hd : d.contains a = true
    · rw [if_pos hd, if_pos hd]
      rfl
    · rw [if_neg hd, if_neg hd]
      exact ih

/-- **What has ended is dropped**, and the other scopes stay as they are. -/
theorem filter_pushedAt (base : Scope) (lines : List Nat)
    (hfirst : ∀ d ∈ ds, d.first.toNat ≤ a) (hab : a ≤ b) :
    (pushedAt base lines ds a).filter (fun scope => b ≤ scope.1.toNat) =
      pushedAt base lines ds b := by
  induction ds with
  | nil => rfl
  | cons d ds ih =>
    obtain ⟨hd, hds⟩ := List.forall_mem_cons.1 hfirst
    have ih := ih hds
    rw [pushedAt, pushedAt]
    by_cases hlast : b ≤ d.last.toNat
    · rw [if_pos (contains_iff.2 ⟨hd, by omega⟩), if_pos (contains_iff.2 ⟨by omega, hlast⟩),
        List.filter_cons_of_pos (by simpa using hlast), ih]
    · -- The scope is not there at `b`: it is dropped here, or it was dropped before.
      have hb : ¬ d.contains b = true := by
        rw [contains_iff]
        omega
      rw [if_neg hb, ← ih]
      by_cases ha : d.contains a = true
      · rw [if_pos ha, List.filter_cons_of_neg (by simpa using hlast)]
      · rw [if_neg ha]

/-- Formats that lie ahead change nothing. -/
theorem scopeAt_append (base : Scope) (lines : List Nat) (earlier : List Directive)
    (h : ∀ d ∈ ds, a < d.first.toNat) :
    scopeAt base lines (ds ++ earlier) a = scopeAt base lines earlier a := by
  induction ds with
  | nil => rfl
  | cons d ds ih =>
    obtain ⟨hd, hds⟩ := List.forall_mem_cons.1 h
    have hnot : ¬ d.contains a = true := by
      rw [contains_iff]
      omega
    rw [List.cons_append, scopeAt, if_neg hnot, ih hds]

/-- A directive that starts behind the lines before is taken up at the next line. -/
theorem lineOf_append (lines : List Nat) (hpast : ∀ s ∈ past, s < d.first.toNat)
    (hd : d.first.toNat ≤ a) : lineOf (past ++ a :: lines) d = a := by
  have hnone : past.find? (fun s => d.first.toNat ≤ s) = none := by
    rw [List.find?_eq_none]
    intro s hs
    have := hpast s hs
    simp only [decide_eq_true_eq]
    omega
  rw [lineOf, List.find?_append, hnone, List.find?_cons_of_pos (by simpa using hd)]
  rfl

/-- **A directive that has started by a line is taken up there or before.** -/
theorem lineOf_le (hlines : lines.Pairwise (· < ·)) (ha : a ∈ lines) (hd : d.first.toNat ≤ a) :
    lineOf lines d ∈ lines ∧ d.first.toNat ≤ lineOf lines d ∧ lineOf lines d ≤ a := by
  cases hfind : lines.find? (fun s => d.first.toNat ≤ s) with
  | none =>
    rw [List.find?_eq_none] at hfind
    exact absurd (decide_eq_true hd) (hfind a ha)
  | some t =>
    have hline : lineOf lines d = t := by
      rw [lineOf, hfind]
      rfl
    obtain ⟨ht, before, after, rfl, hbefore⟩ := List.find?_eq_some_iff_append.1 hfind
    rw [hline]
    refine ⟨List.mem_append_right _ List.mem_cons_self, of_decide_eq_true ht, ?_⟩
    obtain ⟨-, hafter, -⟩ := List.pairwise_append.1 hlines
    rcases List.mem_append.1 ha with hmem | hmem
    · have := hbefore a hmem
      simp only [Bool.not_eq_true', decide_eq_false_iff_not] at this
      omega
    · rcases List.mem_cons.1 hmem with rfl | hmem
      · exact Nat.le_refl _
      · exact Nat.le_of_lt (List.rel_of_pairwise_cons hafter hmem)

/-- One more format changes the scope at the addresses of its range. -/
theorem scopeOver_concat (base : Scope) (ds : List Directive) (d : Directive) (a : Nat) :
    scopeOver base (ds ++ [d]) a =
      if d.contains a then d.restyle (scopeOver base ds a) else scopeOver base ds a := by
  unfold scopeOver
  rw [List.filter_append, List.filter_cons, List.filter_nil]
  by_cases hd : d.contains a = true
  · rw [if_pos hd, if_pos hd, List.foldl_append]
    rfl
  · rw [if_neg hd, if_neg hd, List.append_nil]

/-- **Nested formats affect their own ranges only.** A format is taken up where the formats in
effect are those in effect at every line of its range: the ranges before it that hold one address of
it hold all of it. -/
theorem scopeAt_of_nested (base : Scope) (hlines : lines.Pairwise (· < ·)) (hsorted : Sorted ds)
    (hnested : Nested ds) (ha : a ∈ lines) :
    scopeAt base lines ds.reverse a = scopeOver base ds a := by
  induction ds using List.reverseRecOn generalizing a with
  | nil => rfl
  | append_singleton ds d ih =>
    obtain ⟨hsorted', -, hle⟩ := List.pairwise_append.1 hsorted
    obtain ⟨hnested', -, hnest⟩ := List.pairwise_append.1 hnested
    rw [List.reverse_append, List.reverse_singleton, List.singleton_append, scopeAt,
      scopeOver_concat]
    by_cases hd : d.contains a = true
    · rw [if_pos hd, if_pos hd]
      obtain ⟨hfirst, hlast⟩ := contains_iff.1 hd
      obtain ⟨hmem, hstart, hline⟩ := lineOf_le hlines ha hfirst
      -- Both addresses are in the range of `d`, which no range before it cuts.
      have hsame : ∀ e ∈ ds, e.contains (lineOf lines d) = e.contains a := by
        intro e he
        have hed := le_iff.1 (hle e he d List.mem_cons_self)
        have hends := hnest e he d List.mem_cons_self
        rw [Bool.eq_iff_iff, contains_iff, contains_iff]
        omega
      rw [ih hsorted' hnested' hmem, scopeOver, scopeOver, List.filter_congr hsame]
    · rw [if_neg hd, if_neg hd, ih hsorted' hnested' ha]

/-! ### The addresses of the lines -/

/-- The address of an instruction. -/
def Event.address? : Event → Option Nat
  | code address _ _ _ => some address
  | script _ _ => none

variable {m : Machine} {cursor next : Nat} {w u w' : Walk} {events : List Event}

/-- A stop decodes at most one instruction, at the cursor. -/
theorem Stopped.addresses (h : Stopped m cursor w events next w') :
    events.filterMap Event.address? = [] ∨ events.filterMap Event.address? = [cursor] := by
  induction h with
  | code taken hnone hdecode => exact .inr rfl
  | cutOff taken hnone hdecode renders => exact .inl rfl
  | block taken hsome hlast hprogram renders => exact .inl rfl
  | search taken hsome hlast hprogram scans onward ih => exact ih

/-- **A walk decodes instructions at rising addresses.** -/
theorem Walked.addresses (h : Walked m cursor w events w') :
    (∀ a ∈ events.filterMap Event.address?, cursor ≤ a) ∧
      (events.filterMap Event.address?).Pairwise (· < ·) := by
  induction h with
  | finish w hstop => exact ⟨List.forall_mem_nil _, .nil⟩
  | @stop cursor next w u w' events events' hcursor stopped onward ih =>
    obtain ⟨hge, hpairwise⟩ := ih
    have hnext := stopped.lt
    have hlater : ∀ a ∈ events'.filterMap Event.address?, cursor < a := by
      intro a ha
      have := hge a ha
      omega
    rw [List.filterMap_append]
    rcases stopped.addresses with hnone | hone
    · rw [hnone, List.nil_append]
      exact ⟨fun a ha => Nat.le_of_lt (hlater a ha), hpairwise⟩
    · rw [hone, List.singleton_append]
      refine ⟨List.forall_mem_cons.2 ⟨Nat.le_refl _, fun a ha => Nat.le_of_lt (hlater a ha)⟩, ?_⟩
      exact List.pairwise_cons.2 ⟨hlater, hpairwise⟩

/-! ### The scopes on a walk -/

/-- The state of a walk after a stop, with the formats that have been taken up, the latest first, and
those that are left. -/
structure Scoped (base : Scope) (lines : List Nat) (ds : List Directive) (cursor : Nat)
    (taken rest : List Directive) (w : Walk) : Prop where
  pending_sublist : w.overlay.pending.Sublist (sort ds)
  rest_eq : w.overlay.pending.filter isFormat = rest
  started : ∀ d ∈ taken, d.first.toNat ≤ cursor
  scopes_eq : w.scopes = ⟨base, pushedAt base lines taken cursor⟩

variable {taken rest : List Directive}

/-- At first no format has been taken up. -/
theorem scoped_start (base : Scope) (lines : List Nat) (ds : List Directive) (cursor : Nat) :
    Scoped base lines ds cursor [] (formats ds) (.start base ds) := by
  have hpending : (start base ds).overlay.pending = sort ds := Overlay.pending_ofList ds
  refine ⟨?_, ?_, List.forall_mem_nil _, rfl⟩
  · rw [hpending]
  · rw [hpending]
    rfl

/-- The scope in effect. -/
theorem Scoped.scope_eq (h : Scoped base lines ds cursor taken rest w) :
    w.scope = scopeAt base lines taken cursor := by
  rw [Walk.scope, h.scopes_eq, current_pushedAt]

/-- At the next stop what has ended is dropped. -/
theorem Scoped.expire (h : Scoped base lines ds cursor taken rest w) (hnext : cursor ≤ next) :
    Scoped base lines ds next taken rest (w.expire next) := by
  refine ⟨h.pending_sublist, h.rest_eq, fun d hd => Nat.le_trans (h.started d hd) hnext, ?_⟩
  change w.scopes.expire next = _
  rw [h.scopes_eq, ← filter_pushedAt base lines h.started hnext]
  rfl

/-- A format that is taken up at its line is pushed if it has not ended; other directives leave the
scopes as they are. -/
theorem adopt_scopes (hd : d.first.toNat ≤ cursor)
    (hline : d.isFormat = true → lineOf lines d = cursor)
    (h : w.scopes = ⟨base, pushedAt base lines taken cursor⟩) :
    (adopt cursor d w).scopes =
      ⟨base, pushedAt base lines (if d.isFormat then d :: taken else taken) cursor⟩ := by
  unfold adopt
  by_cases hlast : d.last.toNat < cursor
  · have hnot : ¬ d.contains cursor = true := by
      rw [contains_iff]
      omega
    rw [if_pos hlast, h]
    cases hformat : d.isFormat with
    | false => rfl
    | true => rw [if_pos rfl, pushedAt, if_neg hnot]
  · have hcontains : d.contains cursor = true := contains_iff.2 ⟨hd, by omega⟩
    rw [if_neg hlast]
    cases ha : d.annotation with
    | format change =>
      have hformat : d.isFormat = true := by rw [isFormat, ha]
      have hcurrent := current_pushedAt base lines taken cursor
      simp only [hformat, if_true, pushedAt, hcontains, h, Scope.Stack.push, hcurrent,
        hline hformat, restyle, ha]
    | _ =>
      have hformat : d.isFormat = false := by rw [isFormat, ha]
      rw [hformat]
      exact h

/-- Taking a directive takes it from the formats that are left, if it is one. -/
theorem filter_takeActive {o o' : Overlay} (h : o.takeActive cursor = some (d, o')) :
    d.first.toNat ≤ cursor ∧ o.pending.filter isFormat =
      (if d.isFormat then [d] else []) ++ o'.pending.filter isFormat := by
  obtain ⟨skipped, tail, hpending, hleft, hskipped, -, hfirst⟩ := Overlay.takeActive_split h
  have hnone : skipped.filter isFormat = [] := by
    refine List.filter_eq_nil_iff.2 fun e he hformat => ?_
    have hplain := hskipped e he
    rw [isPlainComment_of_isFormat hformat] at hplain
    exact absurd hplain (by decide)
  refine ⟨hfirst, ?_⟩
  simp only [hpending, hleft, List.filter_append, hnone, List.nil_append, List.filter_cons]
  cases d.isFormat <;> rfl

/-- **A directive that is taken up is pushed if it is a format**, the next of those that are left. -/
theorem Scoped.adopt {o : Overlay} (h : Scoped base lines ds cursor taken rest w)
    (htaken : w.overlay.takeActive cursor = some (d, o))
    (hline : ∀ d ∈ rest, d.first.toNat ≤ cursor → lineOf lines d = cursor) :
    ∃ own rest', rest = own ++ rest' ∧ Scoped base lines ds cursor (own.reverse ++ taken) rest'
      (adopt cursor d { w with overlay := o }) := by
  obtain ⟨hfirst, hrest⟩ := filter_takeActive htaken
  have hsublist := (Overlay.takeActive_sublist htaken).2.1.trans h.pending_sublist
  have hpending := adopt_pending cursor d { w with overlay := o }
  rw [h.rest_eq] at hrest
  have hown : d.isFormat = true → lineOf lines d = cursor := by
    intro hformat
    refine hline d ?_ hfirst
    rw [hrest, if_pos hformat]
    exact List.mem_cons_self
  have hscopes := adopt_scopes (w := { w with overlay := o }) hfirst hown h.scopes_eq
  refine ⟨_, _, hrest, hpending ▸ hsublist, by rw [hpending], ?_, hscopes.trans ?_⟩
  · split
    · exact List.forall_mem_cons.2 ⟨hfirst, h.started⟩
    · exact h.started
  · split <;> rfl

/-- **Formats are taken up in order.** -/
theorem Scoped.takesUp (hscoped : Scoped base lines ds cursor taken rest w)
    (h : TakesUp cursor w u)
    (hline : ∀ d ∈ rest, d.first.toNat ≤ cursor → lineOf lines d = cursor) :
    ∃ more rest', rest = more ++ rest' ∧
      Scoped base lines ds cursor (more.reverse ++ taken) rest' u := by
  induction h generalizing taken rest with
  | refl => exact ⟨[], rest, rfl, hscoped⟩
  | head htaken quiet onward ih =>
    obtain ⟨own, rest', rfl, hadopted⟩ := hscoped.adopt htaken hline
    obtain ⟨more, rest'', rfl, hrest⟩ :=
      ih hadopted fun e he => hline e (List.mem_append_right _ he)
    refine ⟨own ++ more, rest'', (List.append_assoc _ _ _).symm, ?_⟩
    rwa [List.reverse_append, List.append_assoc]

/-- Where no directive is left to take up, the formats that are left lie ahead. -/
theorem Scoped.ahead (h : Scoped base lines ds cursor taken rest w)
    (hnone : w.overlay.takeActive cursor = none) : ∀ d ∈ rest, cursor < d.first.toNat := by
  intro d hd
  rw [← h.rest_eq, List.mem_filter] at hd
  obtain ⟨hmem, hformat⟩ := hd
  by_contra hfirst
  have hplain := Overlay.isPlainComment_of_takeActive_eq_none hnone hmem (Nat.not_lt.1 hfirst)
  rw [isPlainComment_of_isFormat hformat] at hplain
  exact absurd hplain (by decide)

/-- Adding an instruction leaves formats and scopes as they are. -/
theorem Scoped.addCode (h : Scoped base lines ds cursor taken rest w) (i : Z80.Instruction)
    (bytes : List UInt8) : Scoped base lines ds cursor taken rest (w.addCode i bytes cursor) := by
  have hsublist := Overlay.takeComments_sublist w.overlay cursor (cursor + i.length - 1)
  refine ⟨hsublist.trans h.pending_sublist, ?_, h.started, h.scopes_eq⟩
  have hothers := congrArg (List.filter isFormat)
    (Overlay.filter_takeComments w.overlay cursor (cursor + i.length - 1))
  have hformats : (fun d : Directive => d.isFormat && !d.isPlainComment) = isFormat := by
    funext d
    cases hformat : d.isFormat with
    | true => rw [isPlainComment_of_isFormat hformat]; rfl
    | false => rfl
  rw [List.filter_filter, List.filter_filter, hformats] at hothers
  exact hothers.trans h.rest_eq

/-- Without blocks none is taken. -/
theorem Scoped.isBlock_eq_false {o : Overlay} (h : Scoped base lines ds cursor taken rest w)
    (hds : NoBlocks ds) (htakes : TakesUp cursor w u)
    (hsome : u.overlay.takeActive cursor = some (d, o)) : isBlock d = false := by
  have hmem := (Overlay.takeActive_sublist hsome).1
  have hsublist := htakes.pending_sublist.trans h.pending_sublist
  exact hds d (List.mem_mergeSort.1 (hsublist.subset hmem))

/-- **Every instruction of a walk is listed with the scope that the formats give.** The walk has come
from lines at the addresses `past`, and what is left of the formats lies behind all of them. The
induction is on the history: what an instruction leaves is the state at the next stop, and what is
cut off is the end of the walk. -/
theorem Walked.scope_eq (h : Walked m next w events w') (hds : NoBlocks ds)
    (hlo : m.image.origin.toNat ≤ next) (hnext : cursor ≤ next)
    (hlines : lines = past ++ events.filterMap Event.address?)
    (hscoped : Scoped base lines ds cursor taken rest w)
    (hpast : ∀ d ∈ rest, ∀ a ∈ past, a < d.first.toNat) :
    ∀ address i bytes scope, .code address i bytes scope ∈ events →
      scope = scopeAt base lines (rest.reverse ++ taken) address := by
  induction h generalizing cursor past taken rest with
  | finish w hstop => exact fun _ _ _ _ hmem => absurd hmem List.not_mem_nil
  | @stop cursor' next w u w' events events' hcursor stopped onward ih =>
    have hexpired := hscoped.expire hnext
    have hlt := stopped.lt
    cases stopped with
    | @code _ v i htaken hnone hdecode =>
      -- What is left lies behind all lines before, so what has started now has its line here.
      have hline : ∀ d ∈ rest, d.first.toNat ≤ cursor' → lineOf lines d = cursor' := by
        intro d hd hfirst
        rw [hlines]
        exact lineOf_append _ (hpast d hd) hfirst
      obtain ⟨more, rest', rfl, htook⟩ := hexpired.takesUp htaken hline
      have hahead := htook.ahead hnone
      intro address i' bytes scope hmem
      rw [List.reverse_append, List.append_assoc]
      rcases List.mem_cons.1 hmem with heq | hmem
      · obtain ⟨rfl, -, -, rfl⟩ := Event.code.inj heq
        rw [htook.scope_eq]
        exact (scopeAt_append _ _ _ fun d hd => hahead d (List.mem_reverse.1 hd)).symm
      · have hlines' : lines = (past ++ [cursor']) ++ events'.filterMap Event.address? := by
          rw [hlines, List.append_assoc]
          rfl
        have hpast' : ∀ d ∈ rest', ∀ a ∈ past ++ [cursor'], a < d.first.toNat := by
          intro d hd
          refine List.forall_mem_append.2 ⟨hpast d (List.mem_append_right _ hd), ?_⟩
          exact List.forall_mem_singleton.2 (hahead d hd)
        exact ih (by omega) (Nat.le_of_lt hlt) hlines' (htook.addCode i _) hpast' address i' bytes
          scope hmem
    | cutOff htaken hnone hdecode renders =>
      -- The formats that were taken up here have no line, but no instruction follows.
      obtain rfl := eq_stop_of_dataBlock_last hlo hcursor renders.1
      cases onward with
      | finish _ hstop =>
        intro address i bytes scope hmem
        exact absurd hmem (by simp)
      | stop hcursor' _ _ => exact absurd hcursor' (Nat.lt_irrefl _)
    | @block _ v _ d o program _ _ htaken hsome hlast hprogram renders =>
      have hblock := hexpired.isBlock_eq_false hds htaken hsome
      rw [isBlock, hprogram] at hblock
      exact absurd hblock (by simp)
    | @search _ v _ _ d o program _ _ _ htaken hsome hlast hprogram scans onward =>
      have hblock := hexpired.isBlock_eq_false hds htaken hsome
      rw [isBlock, hprogram] at hblock
      exact absurd hblock (by simp)

/-- **The scope of a line.** If no directive runs a script, a walk that ends well has a history, and
the code lines it leaves are those of the instructions in the history, each with the scope that the
format directives give at its address (`scopeAt`). If they are nested, that is the base scope with
the changes of the directives whose ranges hold the address, in the order of their ranges. -/
theorem walk_scopes (m : Machine) (base : Scope) (ds : List Directive) (p : Progress)
    (hds : NoBlocks ds) {w : Walk} (h : (walk m (.start base ds) p).2 = .ok w) :
    ∃ events, Walked m m.image.origin.toNat (.start base ds) events w ∧
      (w.lines.toList.filter Line.isCode).map Line.bare = events.filterMap Event.line? ∧
      ∀ address i bytes scope, .code address i bytes scope ∈ events →
        scope = scopeAt base (events.filterMap Event.address?) (formats ds).reverse address ∧
        (Nested (formats ds) → scope = scopeOver base (formats ds) address) := by
  obtain ⟨events, hwalked⟩ := walked_of_walk h
  obtain ⟨-, added, hlines, hcode, -⟩ := hwalked.leaves
  obtain rfl : w.lines.toList = added := hlines
  obtain ⟨-, hrising⟩ := hwalked.addresses
  refine ⟨events, hwalked, hcode, fun address i bytes scope hmem => ?_⟩
  have hscope : scope = scopeAt base (events.filterMap Event.address?) (formats ds).reverse
      address := by
    have hstart := scoped_start base (events.filterMap Event.address?) ds m.image.origin.toNat
    have hwalk := hwalked.scope_eq hds (Nat.le_refl _) (Nat.le_refl _) (List.nil_append _).symm
      hstart (fun d _ => List.forall_mem_nil _) address i bytes scope hmem
    rwa [List.append_nil] at hwalk
  refine ⟨hscope, fun hnested => ?_⟩
  have haddress : address ∈ events.filterMap Event.address? :=
    List.mem_filterMap.2 ⟨_, hmem, rfl⟩
  rw [hscope]
  exact scopeAt_of_nested base hrising ((sorted_sort ds).sublist List.filter_sublist) hnested
    haddress

/-- A window of four loads of a number. -/
def loadsSample : Machine :=
  ⟨⟨#[0x3E, 0x01, 0x3E, 0x02, 0x3E, 0x03, 0x3E, 0x04], 0, 0x8000, 8, by decide, by decide⟩,
    Spectrum.charset, Spectrum.floats⟩

/-- A format for the second load lies inside a format for the first three. -/
theorem walk_scopes_loadsSample :
    let inner : Directive := ⟨0x8002, 0x8003, .format (.numberBase .decimal)⟩
    let outer : Directive := ⟨0x8000, 0x8005, .format (.addressBase .decimal)⟩
    NoBlocks [inner, outer] ∧ Nested (formats [inner, outer]) ∧
      ∃ w events, (walk loadsSample (start {} [inner, outer]) { total := 16 }).2 = .ok w ∧
        Walked loadsSample 0x8000 (start {} [inner, outer]) events w ∧
        ∀ address i bytes scope, .code address i bytes scope ∈ events →
          scope = scopeOver {} (formats [inner, outer]) address := by
  intro inner outer
  have hds : NoBlocks [inner, outer] := by simp [NoBlocks, isBlock, inner, outer]
  have hnested : Nested (formats [inner, outer]) := by
    rw [formats, ← Overlay.pending_ofList]
    decide +kernel
  have hwalk : (walk loadsSample (start {} [inner, outer]) { total := 16 }).2.toOption.map
      (fun w => w.lines.size) = some 4 := by
    decide +kernel
  obtain ⟨w, hw, -⟩ := exists_ok_of_toOption_map hwalk
  obtain ⟨events, hwalked, -, hscope⟩ := walk_scopes loadsSample {} [inner, outer] _ hds hw
  refine ⟨hds, hnested, w, events, hw, hwalked, ?_⟩
  intro address i bytes scope hmem
  exact (hscope address i bytes scope hmem).2 hnested

/-- **A change can outlive its range.** The second format starts at the last address of the first,
and the third load is in the second alone. But the second has kept the scope that the first had
changed, so that the address of the third load is still in decimal. -/
theorem walk_format_outlives_range :
    let early : Directive := ⟨0x8000, 0x8002, .format (.addressBase .decimal)⟩
    let late : Directive := ⟨0x8002, 0x8005, .format (.numberBase .decimal)⟩
    NoBlocks [early, late] ∧ early.contains 0x8004 = false ∧
      ∃ w line, (walk loadsSample (start {} [early, late]) { total := 16 }).2 = .ok w ∧
        line ∈ w.lines.toList ∧ line.isCode = true ∧
        line.marker.map (·.address) = some 0x8004 ∧
        ∀ i bytes, line.bare ≠
          codeLine i bytes (scopeOver {} (formats [early, late]) 0x8004) 0x8004 := by
  intro early late
  have hds : NoBlocks [early, late] := by simp [NoBlocks, isBlock, early, late]
  have hbase : (scopeOver {} (formats [early, late]) 0x8004).addressBase = .hex := by
    rw [formats, ← Overlay.pending_ofList]
    decide +kernel
  have hwalk : (walk loadsSample (start {} [early, late]) { total := 16 }).2.toOption.map
      (fun w => w.lines.toList.map fun line =>
        (line.isCode, line.marker.map fun marker => (marker.address, marker.base))) =
      some [(true, some (0x8000, .decimal)), (true, some (0x8002, .decimal)),
        (true, some (0x8004, .decimal)), (true, some (0x8006, .hex))] := by
    decide +kernel
  obtain ⟨w, hw, hlines⟩ := exists_ok_of_toOption_map hwalk
  have hthird : (true, some ((0x8004 : UInt16), Base.decimal)) ∈ w.lines.toList.map fun line =>
      (line.isCode, line.marker.map fun marker => (marker.address, marker.base)) := by
    rw [hlines]
    simp
  obtain ⟨line, hline, heq⟩ := List.mem_map.1 hthird
  obtain ⟨hcode, hmarker⟩ := Prod.mk.inj heq
  obtain ⟨marker, hsome, hmarker⟩ := Option.map_eq_some_iff.1 hmarker
  obtain ⟨haddress, hdecimal⟩ := Prod.mk.inj hmarker
  refine ⟨hds, by decide, w, line, hw, hline, hcode, ?_, fun i bytes hbare => ?_⟩
  · rw [hsome, Option.map_some, haddress]
  · have hshown := congrArg Line.marker hbare
    rw [Line.bare_marker, hsome] at hshown
    obtain rfl := Option.some.inj hshown
    exact absurd (hbase.symm.trans hdecimal) (by decide)

end Walk
end Disassembly
