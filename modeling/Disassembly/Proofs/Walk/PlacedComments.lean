/-
# Which comments a listing bears

The lines of a walk through decoded and raw bytes lie one behind the other, so that every address of
the window is on exactly one of them (`Laid.exists_covers`). Each plain comment that starts in the
window is on the line that shows its start, those that reach into the window from before are on the
first line, and each line bears its own in the order of their ranges (`walk_plainComments`). A
comment on operands is on the lines of all the instructions in its range that have such an operand
(`walk_operandComments`).
-/

import Disassembly.Proofs.Walk.Placement

namespace Disassembly

/-! ### Scopes that show comments -/

/-- Whether the change leaves comments shown. -/
def Scope.Change.showsComments : Scope.Change → Bool
  | comments shown => shown
  | custom scope => scope.comments
  | _ => true

/-- A change that leaves comments shown. -/
theorem Scope.Change.comments_apply {change : Scope.Change} {s : Scope}
    (h : change.showsComments = true) (hs : s.comments = true) :
    (change.apply s).comments = true := by
  cases change with
  | comments shown => exact h
  | custom scope => exact h
  | _ => exact hs

/-- Whether every scope shows comments. -/
structure Scope.Stack.ShowsComments (s : Scope.Stack) : Prop where
  base : s.base.comments = true
  pushed : ∀ scope ∈ s.pushed, scope.2.comments = true

theorem Scope.Stack.ShowsComments.current {s : Scope.Stack} (h : s.ShowsComments) :
    s.current.comments = true := by
  unfold Scope.Stack.current
  cases hpushed : s.pushed with
  | nil => exact h.base
  | cons top rest => exact h.pushed top (hpushed ▸ List.mem_cons_self)

theorem Scope.Stack.ShowsComments.expire {s : Scope.Stack} (h : s.ShowsComments) (cursor : Nat) :
    (s.expire cursor).ShowsComments :=
  ⟨h.base, fun scope hscope => h.pushed scope (List.mem_of_mem_filter hscope)⟩

namespace Walk

variable {m : Machine} {ds : List Directive} {base : Scope} {w w' : Walk} {cursor next : Nat}
  {events : List Event}

/-- Whether the directives leave comments shown. -/
def ShowsComments (ds : List Directive) : Prop :=
  ∀ d ∈ ds, ∀ change, d.annotation = .format change → change.showsComments = true

/-- Adopting a directive leaves comments shown. -/
theorem adopt_showsComments {d : Directive} (hd : ∀ change, d.annotation = .format change →
    change.showsComments = true) (h : w.scopes.ShowsComments) :
    (adopt cursor d w).scopes.ShowsComments := by
  unfold adopt
  split
  · exact h
  · split
    · rename_i change ha
      refine ⟨h.base, List.forall_mem_cons.2 ⟨?_, h.pushed⟩⟩
      exact Scope.Change.comments_apply (hd change ha) h.current
    · exact h
    · exact h
    · exact h

/-- Taking up directives leaves comments shown. -/
theorem TakesUp.showsComments (h : TakesUp cursor w w')
    (hpending : ShowsComments w.overlay.pending) (hscopes : w.scopes.ShowsComments) :
    w'.scopes.ShowsComments := by
  induction h with
  | refl => exact hscopes
  | @head w w' d o taken quiet rest ih =>
    have hsub := Overlay.takeActive_sublist taken
    refine ih ?_ (adopt_showsComments (hpending d hsub.1) hscopes)
    rw [adopt_pending]
    exact fun e he => hpending e (hsub.2.1.subset he)

/-- The scopes are those before the block. -/
theorem Renders.scopes_eq {last : UInt16} {program : String} {trace : List Script.Place}
    (h : Renders m w cursor last program trace next w') : w'.scopes = w.scopes := by
  obtain ⟨hblock, outcome, c, hrun, -⟩ := h
  rw [Walk.dataBlock, hrun] at hblock
  obtain ⟨-, rfl⟩ := Prod.mk.inj (Except.ok.inj hblock)
  rfl

/-- At a stop comments are shown, and they are still shown behind it. -/
theorem Stopped.showsComments (h : Stopped m cursor w events next w') (hraw : OnlyRaw ds)
    (hds : ShowsComments ds) (hkept : w.overlay.Kept m.image.origin.toNat cursor ds)
    (hscopes : w.scopes.ShowsComments) :
    (∀ e ∈ events, e.scope.comments = true) ∧ w'.scopes.ShowsComments := by
  have hpending : ShowsComments w.overlay.pending := fun d hd =>
    hds d (List.mem_mergeSort.1 (hkept.pending_sublist.subset hd))
  cases h with
  | code taken hnone hdecode =>
    have hu := taken.showsComments hpending hscopes
    exact ⟨List.forall_mem_singleton.2 hu.current, hu⟩
  | cutOff taken hnone hdecode renders =>
    have hu := taken.showsComments hpending hscopes
    exact ⟨List.forall_mem_singleton.2 hu.current, renders.scopes_eq ▸ hu⟩
  | block taken hsome hlast hprogram renders =>
    have hu := taken.showsComments hpending hscopes
    exact ⟨List.forall_mem_singleton.2 hu.current, renders.scopes_eq ▸ hu⟩
  | @search _ u _ _ d o program _ _ _ taken hsome hlast hprogram scans onward =>
    have hmem := (taken.kept hkept).mem_of_takeActive hsome
    exact absurd hprogram ((hraw d hmem).1 program)

/-- **Comments are shown all along a walk** if they are shown at first and no directive hides
them. -/
theorem Walked.showsComments (h : Walked m cursor w events w') (hraw : OnlyRaw ds)
    (hds : ShowsComments ds) (hlo : m.image.origin.toNat ≤ cursor)
    (hkept : w.overlay.Kept m.image.origin.toNat cursor ds) (hscopes : w.scopes.ShowsComments) :
    ∀ e ∈ events, e.scope.comments = true := by
  induction h with
  | finish w hstop => exact List.forall_mem_nil _
  | stop hcursor stopped onward ih =>
    obtain ⟨hshown, hscopes'⟩ := stopped.showsComments hraw hds hkept.expire (hscopes.expire _)
    have hnext := stopped.lt
    obtain ⟨⟨places, -, -, -, hkept'⟩, -⟩ := stopped.places hraw hshown hlo hcursor hkept.expire
    exact List.forall_mem_append.2 ⟨hshown, ih (by omega) hkept' hscopes'⟩

/-! ### The line of an address -/

/-- Whether a line shows the byte at an address. -/
def Placed.Covers (p : Placed m) (address : Nat) : Prop :=
  p.address ≤ address ∧ address < p.address + p.bytes.length

variable {places : List (Placed m)} {stop address : Nat}

/-- Lines that lie behind an address start there or later. -/
theorem Laid.le_address (h : Laid m cursor places stop) : ∀ p ∈ places, cursor ≤ p.address := by
  induction h with
  | nil => exact List.forall_mem_nil _
  | cons p rest ih =>
    refine List.forall_mem_cons.2 ⟨Nat.le_refl _, fun q hq => ?_⟩
    have hq := ih q hq
    omega

/-- The first of lines that lie one behind the other. -/
theorem Laid.of_cons {p : Placed m} (h : Laid m cursor (p :: places) stop) :
    p.address = cursor ∧ Laid m (p.address + p.bytes.length) places stop := by
  cases h with
  | cons p rest => exact ⟨rfl, rest⟩

/-- **Every address is on exactly one line.** -/
theorem Laid.exists_covers (h : Laid m cursor places stop) (hlo : cursor ≤ address)
    (hhi : address < stop) :
    ∃ before p after, places = before ++ p :: after ∧ p.Covers address ∧
      ∀ q ∈ before ++ after, ¬ q.Covers address := by
  induction h with
  | nil => omega
  | @cons p places stop rest ih =>
    by_cases hp : address < p.address + p.bytes.length
    · refine ⟨[], p, places, rfl, ⟨hlo, hp⟩, fun q hq hcovers => ?_⟩
      have hle := rest.le_address q hq
      have := hcovers.1
      omega
    · obtain ⟨before, q, after, rfl, hcovers, hother⟩ := ih (Nat.le_of_not_lt hp) hhi
      refine ⟨p :: before, q, after, rfl, hcovers, List.forall_mem_cons.2 ⟨?_, hother⟩⟩
      exact fun hcovers => hp hcovers.2

/-! ### Plain comments -/

variable {p : Placed m} {d : Directive}

/-- A plain comment is on the lines that it falls on, as often as it is given. -/
theorem Placed.IsAnnotated.count_plain (h : p.IsAnnotated ds) (hplain : d.isPlainComment = true) :
    p.attached.count d = if d.fallsOn m.image.origin.toNat p.address p.bytes.length
      then ds.count d else 0 := by
  rw [← List.count_filter (l := p.attached) hplain, h.plain]
  split
  · rename_i hfalls
    rw [List.count_filter hfalls]
    exact (List.mergeSort_perm ds Directive.le).count_eq d
  · rename_i hfalls
    exact List.count_eq_zero.2 fun hmem => hfalls (List.mem_filter.1 hmem).2

/-- A line that a plain comment does not fall on does not bear it. -/
theorem Placed.IsAnnotated.not_mem (h : p.IsAnnotated ds) (hplain : d.isPlainComment = true)
    (hfalls : ¬ d.fallsOn m.image.origin.toNat p.address p.bytes.length = true) :
    d ∉ p.attached := by
  rw [← List.count_eq_zero, h.count_plain hplain, if_neg hfalls]

/-- A plain comment falls on a line that shows its start and that it does not end before, or on the
first line if it reaches into the window from before. -/
theorem fallsOn_iff (hplain : d.isPlainComment = true)
    (hlo : m.image.origin.toNat ≤ p.address) :
    d.fallsOn m.image.origin.toNat p.address p.bytes.length = true ↔
      (p.Covers d.first.toNat ∧ p.address ≤ d.last.toNat) ∨
        (d.first.toNat < m.image.origin.toNat ∧ m.image.origin.toNat ≤ d.last.toNat ∧
          p.address = m.image.origin.toNat) := by
  have hpos := List.length_pos_of_ne_nil p.bytes_ne_nil
  simp only [Directive.fallsOn, hplain, Placed.Covers, Bool.true_and, Bool.and_eq_true,
    Bool.or_eq_true, decide_eq_true_eq]
  omega

/-- **Where the plain comments of directives are on lines.** -/
structure PlainCommentsLand (ds : List Directive) (places : List (Placed m)) : Prop where
  /-- A comment that starts in the window is on the line that shows its start, and on no other. -/
  inside : ∀ d, d.isPlainComment = true → d.first ≤ d.last →
    m.image.origin.toNat ≤ d.first.toNat → d.first.toNat < m.image.stop →
    ∃ before p after, places = before ++ p :: after ∧ p.Covers d.first.toNat ∧
      p.attached.count d = ds.count d ∧
      ∀ q ∈ before ++ after, ¬ q.Covers d.first.toNat ∧ d ∉ q.attached
  /-- A comment that reaches into the window from before is on the first line, and on no other. -/
  before : ∀ d, d.isPlainComment = true → d.first.toNat < m.image.origin.toNat →
    m.image.origin.toNat ≤ d.last.toNat → ∀ p after, places = p :: after →
    p.attached.count d = ds.count d ∧ ∀ q ∈ after, d ∉ q.attached
  /-- A comment that ends before its start is on the line that shows its start if that line starts
  no later than the comment ends. -/
  inverted : ∀ d, d.isPlainComment = true → d.last < d.first → ∀ p ∈ places,
    p.Covers d.first.toNat → p.address ≤ d.last.toNat → p.attached.count d = ds.count d
  /-- There are no other comments. -/
  only : ∀ p ∈ places, ∀ d ∈ p.attached, d.isPlainComment = true → d ∈ ds ∧
    ((p.Covers d.first.toNat ∧ p.address ≤ d.last.toNat) ∨
      (d.first.toNat < m.image.origin.toNat ∧ m.image.origin.toNat ≤ d.last.toNat ∧
        p.address = m.image.origin.toNat))
  /-- Each line bears its comments in the order of their ranges. -/
  sorted : ∀ p ∈ places, Directive.Sorted (p.attached.filter Directive.isPlainComment)
  /-- Comments with the same range are in the order in which they are given. -/
  stable : ∀ p ∈ places, ∀ d : Directive,
    ((p.attached.filter Directive.isPlainComment).filter d.sameRange).Sublist ds

/-- **Plain comments are where the directives put them**, on lines that lie one behind the other. -/
theorem Laid.plainCommentsLand (h : Laid m m.image.origin.toNat places m.image.stop)
    (hall : ∀ p ∈ places, p.IsAnnotated ds) : PlainCommentsLand ds places where
  inside d hplain hrange hlo hhi := by
    obtain ⟨before, p, after, rfl, hcovers, hother⟩ := h.exists_covers hlo hhi
    have hp : p ∈ before ++ p :: after := List.mem_append_right _ List.mem_cons_self
    have hfalls := (fallsOn_iff hplain (h.le_address p hp)).2
      (.inl ⟨hcovers, Nat.le_trans hcovers.1 (UInt16.le_iff_toNat_le.1 hrange)⟩)
    refine ⟨before, p, after, rfl, hcovers, ?_, fun q hq => ⟨hother q hq, ?_⟩⟩
    · rw [(hall p hp).count_plain hplain, if_pos hfalls]
    · have hq' : q ∈ before ++ p :: after :=
        ((List.Sublist.refl before).append (List.sublist_cons_self p after)).subset hq
      refine (hall q hq').not_mem hplain fun hfalls => ?_
      rcases (fallsOn_iff hplain (h.le_address q hq')).1 hfalls with hcovers | hfirst
      · exact hother q hq hcovers.1
      · omega
  before d hplain hfirst hlast p after hplaces := by
    subst hplaces
    obtain ⟨haddress, hrest⟩ := h.of_cons
    obtain ⟨hp, hafter⟩ := List.forall_mem_cons.1 hall
    have hfalls := (fallsOn_iff (p := p) hplain (Nat.le_of_eq haddress.symm)).2
      (.inr ⟨hfirst, hlast, haddress⟩)
    refine ⟨by rw [hp.count_plain hplain, if_pos hfalls], fun q hq => ?_⟩
    have hpos := List.length_pos_of_ne_nil p.bytes_ne_nil
    have hq' := hrest.le_address q hq
    refine (hafter q hq).not_mem hplain fun hfalls => ?_
    rcases (fallsOn_iff hplain (by omega)).1 hfalls with hcovers | hother
    · have := hcovers.1.1
      omega
    · omega
  inverted d hplain hrange p hp hcovers hlast := by
    have hfalls := (fallsOn_iff hplain (h.le_address p hp)).2 (.inl ⟨hcovers, hlast⟩)
    rw [(hall p hp).count_plain hplain, if_pos hfalls]
  only p hp d hd hplain := by
    have hfalls : d.fallsOn m.image.origin.toNat p.address p.bytes.length = true := by
      by_contra hfalls
      exact (hall p hp).not_mem hplain hfalls hd
    have hmem : d ∈ p.attached.filter Directive.isPlainComment := List.mem_filter.2 ⟨hd, hplain⟩
    rw [(hall p hp).plain] at hmem
    exact ⟨List.mem_mergeSort.1 (List.mem_filter.1 hmem).1,
      (fallsOn_iff hplain (h.le_address p hp)).1 hfalls⟩
  sorted p hp := by
    rw [(hall p hp).plain]
    exact (Directive.sorted_sort ds).sublist List.filter_sublist
  stable p hp d := by
    rw [(hall p hp).plain, List.filter_comm, Directive.filter_sort]
    exact List.filter_sublist.trans List.filter_sublist

/-- **Every plain comment is on one line, the right one.** Where every byte is decoded or dumped as
it is, a walk that ends well has a history. If all scopes in effect in it show comments, then the
lines lie one behind the other through the whole window, and each bears the plain comments that
start on it, and the first one also those that reach into the window, in the order of their
ranges. That the lines are annotated says that they bear nothing else, so that a comment on operands
cannot pass for a plain one. -/
theorem walk_plainComments {progress : Progress} (hraw : OnlyRaw ds)
    (h : (walk m (start base ds) progress).2 = .ok w) :
    (∃ events, Walked m m.image.origin.toNat (start base ds) events w) ∧
      ∀ events, Walked m m.image.origin.toNat (start base ds) events w →
        (∀ e ∈ events, e.scope.comments = true) →
        ∃ places : List (Placed m), Laid m m.image.origin.toNat places m.image.stop ∧
          places.map Placed.line = w.lines.toList ∧ (∀ p ∈ places, p.IsAnnotated ds) ∧
          PlainCommentsLand ds places := by
  refine ⟨walked_of_walk h, fun events hwalked hshown => ?_⟩
  obtain ⟨places, hlaid, hlines, hall⟩ := hwalked.placed hraw hshown
  exact ⟨places, hlaid, hlines, hall, hlaid.plainCommentsLand hall⟩

/-- The history of a walk shows comments throughout. -/
theorem Walked.shown (h : Walked m m.image.origin.toNat (start base ds) events w)
    (hraw : OnlyRaw ds) (hds : ShowsComments ds) (hbase : base.comments = true) :
    ∀ e ∈ events, e.scope.comments = true :=
  h.showsComments hraw hds (Nat.le_refl _) (Overlay.kept_ofList _ ds)
    ⟨hbase, List.forall_mem_nil _⟩

/-- A comment from before the window is on the first line, and two comments on a block are on its
line in the order of their ranges. -/
theorem walk_plainComments_sample :
    let ds : List Directive := [⟨0x7000, 0x8000, .comment .endOfLine "early"⟩,
      ⟨0x8002, 0x9000, .comment .endOfLine "second"⟩, ⟨0x8001, 0x8002, .dataBlock Preset.rawBytes⟩,
      ⟨0x8001, 0x8001, .comment .endOfLine "first"⟩]
    ∃ w, (walk cutOffSample (start {} ds) { total := 8 }).2 = .ok w ∧
      w.lines.toList.map Line.comments = [["early"], ["first", "second"], []] ∧
      ∃ places : List (Placed cutOffSample), Laid cutOffSample 0x8000 places 0x8004 ∧
        places.map Placed.line = w.lines.toList ∧ (∀ p ∈ places, p.IsAnnotated ds) ∧
        PlainCommentsLand ds places := by
  intro ds
  have hraw : OnlyRaw ds := by simp [OnlyRaw, ds]
  have hshows : ShowsComments ds := by simp [ShowsComments, ds]
  have hwalk : (walk cutOffSample (start {} ds) { total := 8 }).2.toOption.map
      (fun w => w.lines.toList.map Line.comments) = some [["early"], ["first", "second"], []] := by
    decide +kernel
  obtain ⟨w, hw, hcomments⟩ := exists_ok_of_toOption_map hwalk
  obtain ⟨⟨events, hwalked⟩, hland⟩ := walk_plainComments hraw hw
  exact ⟨w, hw, hcomments, hland events hwalked (hwalked.shown hraw hshows rfl)⟩

/-- A comment that ends before it starts is attached too: here to the instruction that shows both
of its bounds. -/
theorem walk_attaches_inverted_comment :
    let m : Machine := ⟨⟨#[0xC3, 0x00, 0x80], 0, 0x8000, 3, by decide, by decide⟩,
      Spectrum.charset, Spectrum.floats⟩
    let late : Directive := ⟨0x8002, 0x8001, .comment .endOfLine "late"⟩
    OnlyRaw [late] ∧ late.last < late.first ∧
      ∃ w, (walk m (start {} [late]) { total := 6 }).2 = .ok w ∧
        (∀ events, Walked m 0x8000 (start {} [late]) events w →
          ∀ e ∈ events, e.scope.comments = true) ∧
        w.lines.toList.map Line.comments = [["late"]] := by
  intro m late
  have hraw : OnlyRaw [late] := by simp [OnlyRaw, late]
  have hshows : ShowsComments [late] := by simp [ShowsComments, late]
  have hwalk : (walk m (start {} [late]) { total := 6 }).2.toOption.map
      (fun w => w.lines.toList.map Line.comments) = some [["late"]] := by
    decide +kernel
  obtain ⟨w, hw, hcomments⟩ := exists_ok_of_toOption_map hwalk
  refine ⟨hraw, by decide, w, hw, fun events hwalked => ?_, hcomments⟩
  exact hwalked.shown hraw hshows rfl

/-! ### Comments on operands -/

/-- **Where the comments on operands are.** -/
structure OperandCommentsLand (ds : List Directive) (p : Placed m) : Prop where
  /-- A comment is on the line of an instruction exactly if its range holds the address and it is
  about an operand. -/
  mem_iff : ∀ i, p.instruction? = some i → ∀ d, d.isMatcher = true →
    (d ∈ p.attached ↔ d ∈ ds ∧ (d.first.toNat ≤ p.address ∧ p.address ≤ d.last.toNat) ∧
      ∃ operand ∈ i.operands, d.isAbout operand = true)
  /-- It is there once for each operand that it is about. -/
  count : ∀ i, p.instruction? = some i → ∀ d, d.isMatcher = true →
    d.first.toNat ≤ p.address → p.address ≤ d.last.toNat →
    p.attached.count d = i.operands.countP (d.isAbout ·) * ds.count d
  /-- There are none on lines of data. -/
  data : p.instruction? = none → ∀ d, d.isMatcher = true → d ∉ p.attached

/-- **Comments on operands are where the directives put them.** -/
theorem Placed.IsAnnotated.operandCommentsLand (h : p.IsAnnotated ds) :
    OperandCommentsLand ds p where
  mem_iff i hi d hmatcher := by
    have hcount := h.matchers d hmatcher
    rw [hi] at hcount
    rw [← List.count_pos_iff, hcount, ← List.countP_pos_iff, ← List.count_pos_iff]
    cases hcontains : d.contains p.address with
    | false =>
      have hout : ¬ (d.first.toNat ≤ p.address ∧ p.address ≤ d.last.toNat) := by
        simpa [Directive.contains] using hcontains
      simp [hout]
    | true =>
      have hin : d.first.toNat ≤ p.address ∧ p.address ≤ d.last.toNat := by
        simpa [Directive.contains] using hcontains
      simp only [if_true, hin, true_and]
      rw [Nat.pos_iff_ne_zero, Nat.mul_ne_zero_iff, and_comm, Nat.pos_iff_ne_zero,
        Nat.pos_iff_ne_zero]
  count i hi d hmatcher hfirst hlast := by
    have hcount := h.matchers d hmatcher
    have hcontains : d.contains p.address = true := by simp [Directive.contains, hfirst, hlast]
    rwa [hi, hcontains] at hcount
  data hnone d hmatcher := by
    have hcount := h.matchers d hmatcher
    rw [hnone] at hcount
    exact List.count_eq_zero.1 hcount

/-- **A comment on operands is where it is asked for.** Where every byte is decoded or dumped as it
is, a walk that ends well has a history. If all scopes in effect in it show comments, then a comment
on operands is on the lines of the instructions in its range that have an operand of its kind with
its value, once for each such operand, and never on a line of data. -/
theorem walk_operandComments {progress : Progress} (hraw : OnlyRaw ds)
    (h : (walk m (start base ds) progress).2 = .ok w) :
    (∃ events, Walked m m.image.origin.toNat (start base ds) events w) ∧
      ∀ events, Walked m m.image.origin.toNat (start base ds) events w →
        (∀ e ∈ events, e.scope.comments = true) →
        ∃ places : List (Placed m), Laid m m.image.origin.toNat places m.image.stop ∧
          places.map Placed.line = w.lines.toList ∧
          ∀ p ∈ places, p.IsAnnotated ds ∧ OperandCommentsLand ds p := by
  refine ⟨walked_of_walk h, fun events hwalked hshown => ?_⟩
  obtain ⟨places, hlaid, hlines, hall⟩ := hwalked.placed hraw hshown
  exact ⟨places, hlaid, hlines, fun p hp => ⟨hall p hp, (hall p hp).operandCommentsLand⟩⟩

/-- A comment on a word and one on a displacement are on the lines of the instructions that have
them, and not on the line of the bytes behind. -/
theorem walk_operandComments_sample :
    let m : Machine := ⟨⟨#[0x21, 0x34, 0x12, 0xDD, 0x7E, 0x05, 0x34, 0x12], 0, 0x8000, 8,
      by decide, by decide⟩, Spectrum.charset, Spectrum.floats⟩
    let ds : List Directive := [⟨0x0000, 0xFFFF, .reference .endOfLine .both 0x1234 "table"⟩,
      ⟨0x8003, 0x8007, .displacement .endOfLine .ix 5 "field"⟩,
      ⟨0x8006, 0x8007, .dataBlock Preset.rawBytes⟩]
    ∃ w, (walk m (start {} ds) { total := 16 }).2 = .ok w ∧
      w.lines.toList.map Line.comments = [["table"], ["field"], []] ∧
      ∃ places : List (Placed m), Laid m 0x8000 places 0x8008 ∧
        places.map Placed.line = w.lines.toList ∧
        ∀ p ∈ places, p.IsAnnotated ds ∧ OperandCommentsLand ds p := by
  intro m ds
  have hraw : OnlyRaw ds := by simp [OnlyRaw, ds]
  have hshows : ShowsComments ds := by simp [ShowsComments, ds]
  have hwalk : (walk m (start {} ds) { total := 16 }).2.toOption.map
      (fun w => w.lines.toList.map Line.comments) = some [["table"], ["field"], []] := by
    decide +kernel
  obtain ⟨w, hw, hcomments⟩ := exists_ok_of_toOption_map hwalk
  obtain ⟨⟨events, hwalked⟩, hland⟩ := walk_operandComments hraw hw
  exact ⟨w, hw, hcomments, hland events hwalked (hwalked.shown hraw hshows rfl)⟩

end Walk
end Disassembly
