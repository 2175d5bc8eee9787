/-
# The walk terminates

The walk is written with bounds on its steps. Here its two loops stand without bounds, turn by turn
(`Stage.next`): the outer loop starts a round at the cursor, and in a round the inner loop takes up
directives until none is left that has started or a data block is rendered. There is no next turn
where the walk is done, or where a script that is run never ends.

The inner loop drains a queue that grows while it is drained, because a search may add directives
that have started already. It ends all the same: a turn that goes on uses up a pattern block, and no
script adds one, or it uses up another directive and adds none (`Shrinks`). The outer loop ends
because a round moves the cursor on, wherever a script puts the end of its block. So every sequence
of turns is finite (`next_wellFounded`), and if the scripts that are run end, the turns lead to the
result of the walk with its bounds (`walk_terminates`).
-/

import Disassembly.Proofs.Walk.History
import Mathlib.Data.Prod.Lex

namespace Disassembly

/-- Whether the error stands for a script that never ends. -/
def Script.ErrorKind.isEndless : ErrorKind → Bool
  | endless => true
  | _ => false

namespace Walk

variable {m : Machine} {w w' : Walk} {cursor : Nat} {d : Directive} {o : Overlay}

/-! ### The bounds are never used up -/

/-- More searches than pattern blocks are as good as any number of them. -/
theorem activate_congr (searches searches' : Nat)
    (h : w.overlay.pending.countP isPattern < searches)
    (h' : w.overlay.pending.countP isPattern < searches') :
    activate m cursor searches w = activate m cursor searches' w := by
  induction searches generalizing searches' w with
  | zero => exact absurd h (Nat.not_lt_zero _)
  | succ searches ih =>
    cases searches' with
    | zero => exact absurd h' (Nat.not_lt_zero _)
    | succ searches' =>
      rw [activate, activate]
      cases htake : takeUp m cursor w.overlay.pending.length w with
      | error e => rfl
      | ok r =>
        obtain ⟨stop, u⟩ := r
        cases stop with
        | settled => rfl
        | resumeAt next => rfl
        | searched =>
          have hfewer := countP_isPattern_searched (takeUp_cases _ w (Nat.le_refl _) htake)
          exact ih searches' (by omega) (by omega)

/-- Behind the end of the window no step is taken, however many are left. -/
theorem walkFrom_of_stop (steps : Nat) (p : Progress) (h : ¬ cursor < m.image.stop) :
    walkFrom m steps cursor w p = (p, .ok w) := by
  cases steps with
  | zero => rfl
  | succ steps => rw [walkFrom, if_neg h]

/-- As many steps as there are bytes left are as good as any more of them, and reports of progress
change nothing. -/
theorem walkFrom_congr {steps steps' : Nat} (p p' : Progress)
    (h : m.image.stop ≤ cursor + steps) (h' : m.image.stop ≤ cursor + steps') :
    (walkFrom m steps cursor w p).2 = (walkFrom m steps' cursor w p').2 := by
  induction steps generalizing cursor w p p' steps' with
  | zero =>
    have hcursor : ¬ cursor < m.image.stop := by omega
    rw [walkFrom_of_stop 0 p hcursor, walkFrom_of_stop steps' p' hcursor]
  | succ steps ih =>
    by_cases hcursor : cursor < m.image.stop
    · cases steps' with
      | zero => omega
      | succ steps' =>
        rw [walkFrom, walkFrom, if_pos hcursor, if_pos hcursor]
        cases hstep : w.step m cursor with
        | error e => rfl
        | ok r =>
          obtain ⟨next, u⟩ := r
          obtain ⟨events, hstopped⟩ := stopped_of_step hstep
          have hnext := hstopped.lt
          exact ih _ _ (by omega) (by omega)
    · rw [walkFrom_of_stop _ p hcursor, walkFrom_of_stop _ p' hcursor]

/-- A stop from where directives are taken up. -/
def rest (m : Machine) (cursor : Nat) (w : Walk) : Except Script.Error (Nat × Walk) :=
  match activate m cursor (w.overlay.pending.countP isPattern + 1) w with
  | .error e => .error e
  | .ok (some next, w) => .ok (next, w)
  | .ok (none, w) => w.decodeLine m cursor

theorem step_eq_rest : w.step m cursor = rest m cursor (w.expire cursor) := rfl

theorem rest_none (h : w.overlay.takeActive cursor = none) :
    rest m cursor w = w.decodeLine m cursor := by
  rw [rest, activate, takeUp_none h]

theorem rest_quiet (taken : w.overlay.takeActive cursor = some (d, o))
    (quiet : d.last.toNat < cursor ∨ isBlock d = false) :
    rest m cursor w = rest m cursor (adopt cursor d { w with overlay := o }) := by
  have hlength := (Overlay.takeActive_sublist taken).2.2.1
  have hfewer : o.pending.countP isPattern ≤ w.overlay.pending.countP isPattern :=
    (Overlay.takeActive_sublist taken).2.1.countP_le
  have hactivate (searches : Nat) : activate m cursor (searches + 1) w =
      activate m cursor (searches + 1) (adopt cursor d { w with overlay := o }) := by
    rw [activate, activate, ← hlength, takeUp_quiet taken quiet, adopt_pending]
  rw [rest, rest, hactivate]
  rw [activate_congr _ (o.pending.countP isPattern + 1), adopt_pending]
  · rw [adopt_pending]
    exact Nat.lt_succ_of_le hfewer
  · rw [adopt_pending]
    exact Nat.lt_succ_self _

theorem rest_dataBlock {program : String} (taken : w.overlay.takeActive cursor = some (d, o))
    (hlast : cursor ≤ d.last.toNat) (ha : d.annotation = .dataBlock program) :
    rest m cursor w = Walk.dataBlock m { w with overlay := o } cursor d.last program := by
  have hlength := (Overlay.takeActive_sublist taken).2.2.1
  rw [rest, activate, ← hlength, takeUp_dataBlock taken hlast ha]
  cases Walk.dataBlock m { w with overlay := o } cursor d.last program with
  | error e => rfl
  | ok r => rfl

theorem rest_patternBlock {program : String} (taken : w.overlay.takeActive cursor = some (d, o))
    (hlast : cursor ≤ d.last.toNat) (ha : d.annotation = .patternBlock program) :
    rest m cursor w = (Walk.patternBlock m { w with overlay := o } cursor d.last program).bind
      (rest m cursor) := by
  have hlength := (Overlay.takeActive_sublist taken).2.2.1
  have hfewer := countP_isPattern_takeActive taken (by rw [isPattern, ha])
  rw [rest, activate, ← hlength, takeUp_patternBlock taken hlast ha]
  cases hrun : Walk.patternBlock m { w with overlay := o } cursor d.last program with
  | error e => rfl
  | ok u =>
    have hsame : u.overlay.pending.countP isPattern = o.pending.countP isPattern :=
      countP_isPattern_patternBlock hrun
    change _ = rest m cursor u
    rw [rest, ← activate_congr (w.overlay.pending.countP isPattern)]
    · rfl
    · omega
    · omega

/-! ### The loops, turn by turn -/

/-- Whether a script has ended, well or with an error. -/
def HasEnded {α : Type} : Except Script.Error α → Prop
  | .ok _ => True
  | .error e => e.kind.isEndless = false

/-- What is composed ends only if its first part does. -/
theorem HasEnded.of_bind {α β : Type} {r : Except Script.Error α} {f : α → Except Script.Error β}
    (h : HasEnded (r.bind f)) : HasEnded r := by
  cases r with
  | ok a => trivial
  | error e => exact h

/-- Where the loops of a walk stand. -/
inductive Stage
  /-- At the head of the outer loop. -/
  | round (cursor : Nat) (w : Walk)
  /-- At the head of the inner loop, in the round at the cursor. -/
  | taking (cursor : Nat) (w : Walk)
  /-- Behind the loops, with the lines of the walk or with the error of a script. -/
  | done (result : Except Script.Error Walk)

namespace Stage

/-- The stage behind a script: onward from what it gives, or done with its error. A script that
never ends has none. -/
def after {α : Type} (onward : α → Stage) : Except Script.Error α → Option Stage
  | .ok a => some (onward a)
  | .error e => if e.kind.isEndless then none else some (.done (.error e))

/-- The stage behind a data block or an instruction: the head of the outer loop. -/
def afterBlock : Except Script.Error (Nat × Walk) → Option Stage :=
  after fun (next, w) => .round next w

/-- **One turn of the loops.** -/
def next (m : Machine) : Stage → Option Stage
  | .round cursor w =>
    some (if cursor < m.image.stop then .taking cursor (w.expire cursor) else .done (.ok w))
  | .taking cursor w =>
    match w.overlay.takeActive cursor with
    | none => afterBlock (w.decodeLine m cursor)
    | some (d, overlay) =>
      let w := { w with overlay }
      if d.last.toNat < cursor then some (.taking cursor w)
      else match d.annotation with
        | .format change => some (.taking cursor { w with scopes := w.scopes.push d.last change })
        | .reference .. | .displacement .. =>
          some (.taking cursor { w with overlay := w.overlay.activate d })
        | .dataBlock program => afterBlock (w.dataBlock m cursor d.last program)
        | .patternBlock program => after (.taking cursor) (w.patternBlock m cursor d.last program)
        | .comment .. => some (.taking cursor w)
  | .done _ => none

/-- The script that is run at a stage, if there is one, ends. What is cut off is dumped by a script,
too. -/
def ScriptEnds (m : Machine) : Stage → Prop
  | .taking cursor w =>
    match w.overlay.takeActive cursor with
    | none => HasEnded (w.decodeLine m cursor)
    | some (d, overlay) =>
      cursor ≤ d.last.toNat →
        match d.annotation with
        | .dataBlock program =>
          HasEnded (Walk.dataBlock m { w with overlay } cursor d.last program)
        | .patternBlock program =>
          HasEnded (Walk.patternBlock m { w with overlay } cursor d.last program)
        | _ => True
  | _ => True

/-- The cursor of the round that starts at a stage, if one does. -/
def opened (m : Machine) : Stage → List Nat
  | .round cursor _ => if cursor < m.image.stop then [cursor] else []
  | _ => []

/-- Turns lead from one stage to another, with rounds at these cursors. -/
inductive Leads (m : Machine) : Stage → List Nat → Stage → Prop
  | refl (s : Stage) : Leads m s [] s
  | head {s s' s'' : Stage} {cursors : List Nat} (turn : s.next m = some s')
      (rest : Leads m s' cursors s'') : Leads m s (s.opened m ++ cursors) s''

theorem next_round (h : cursor < m.image.stop) :
    next m (.round cursor w) = some (.taking cursor (w.expire cursor)) := by
  rw [next, if_pos h]

theorem next_round_stop (h : ¬ cursor < m.image.stop) :
    next m (.round cursor w) = some (.done (.ok w)) := by
  rw [next, if_neg h]

/-- With no directive left, an instruction is decoded. -/
theorem next_none (h : w.overlay.takeActive cursor = none) :
    next m (.taking cursor w) = afterBlock (w.decodeLine m cursor) := by
  simp only [next, h]

/-- A directive that runs no script is adopted. -/
theorem next_quiet (taken : w.overlay.takeActive cursor = some (d, o))
    (quiet : d.last.toNat < cursor ∨ isBlock d = false) :
    next m (.taking cursor w) = some (.taking cursor (adopt cursor d { w with overlay := o })) := by
  simp only [next, taken, adopt]
  split
  · rfl
  · rename_i hlast
    have hblock := quiet.resolve_left hlast
    unfold isBlock at hblock
    cases ha : d.annotation <;> simp_all

/-- A data block that has not ended is rendered, and the round is over. -/
theorem next_dataBlock {program : String} (taken : w.overlay.takeActive cursor = some (d, o))
    (hlast : cursor ≤ d.last.toNat) (ha : d.annotation = .dataBlock program) :
    next m (.taking cursor w) =
      afterBlock (Walk.dataBlock m { w with overlay := o } cursor d.last program) := by
  simp only [next, taken, Nat.not_lt.2 hlast, if_false, ha]

/-- A pattern block that has not ended is searched, and the round goes on. -/
theorem next_patternBlock {program : String} (taken : w.overlay.takeActive cursor = some (d, o))
    (hlast : cursor ≤ d.last.toNat) (ha : d.annotation = .patternBlock program) :
    next m (.taking cursor w) =
      after (.taking cursor) (Walk.patternBlock m { w with overlay := o } cursor d.last program) := by
  simp only [next, taken, Nat.not_lt.2 hlast, if_false, ha]

/-- Behind a script is what it gives, or the end with its error. -/
theorem after_eq_some {α : Type} {onward : α → Stage} {r : Except Script.Error α} {s : Stage}
    (h : after onward r = some s) :
    (∃ a, r = .ok a ∧ s = onward a) ∨ ∃ e, r = .error e ∧ s = .done (.error e) := by
  cases r with
  | ok a => exact .inl ⟨a, rfl, (Option.some.inj h).symm⟩
  | error e =>
    rw [after] at h
    by_cases hkind : e.kind.isEndless = true
    · rw [if_pos hkind] at h
      exact absurd h (by simp)
    · rw [if_neg hkind] at h
      exact .inr ⟨e, rfl, (Option.some.inj h).symm⟩

/-- Behind a script that ends there is a stage. -/
theorem exists_after {α : Type} (onward : α → Stage) {r : Except Script.Error α}
    (h : HasEnded r) : ∃ s, after onward r = some s := by
  cases r with
  | ok a => exact ⟨onward a, rfl⟩
  | error e =>
    have hkind : e.kind.isEndless = false := h
    refine ⟨.done (.error e), ?_⟩
    rw [after, hkind, if_neg (by simp)]

/-- **Everything a turn can do.** A round starts, or the window is at its end. In a round, a
directive that runs no script is adopted, a pattern block is searched, a data block or an instruction
ends the round, or a script fails and with it the stop. -/
inductive Turn (m : Machine) : Stage → Stage → Prop
  | enter {cursor : Nat} {w : Walk} (h : cursor < m.image.stop) :
      Turn m (.round cursor w) (.taking cursor (w.expire cursor))
  | finish {cursor : Nat} {w : Walk} (h : ¬ cursor < m.image.stop) :
      Turn m (.round cursor w) (.done (.ok w))
  | adopt {cursor : Nat} {w : Walk} {d : Directive} {o : Overlay}
      (taken : w.overlay.takeActive cursor = some (d, o))
      (quiet : d.last.toNat < cursor ∨ isBlock d = false) :
      Turn m (.taking cursor w) (.taking cursor (Walk.adopt cursor d { w with overlay := o }))
  | search {cursor : Nat} {w w' : Walk} {d : Directive} {o : Overlay} {program : String}
      (taken : w.overlay.takeActive cursor = some (d, o)) (hlast : cursor ≤ d.last.toNat)
      (hprogram : d.annotation = .patternBlock program)
      (hrun : Walk.patternBlock m { w with overlay := o } cursor d.last program = .ok w') :
      Turn m (.taking cursor w) (.taking cursor w')
  | render {cursor onward : Nat} {w w' : Walk} {d : Directive} {o : Overlay} {program : String}
      (taken : w.overlay.takeActive cursor = some (d, o)) (hlast : cursor ≤ d.last.toNat)
      (hprogram : d.annotation = .dataBlock program)
      (hrun : Walk.dataBlock m { w with overlay := o } cursor d.last program = .ok (onward, w')) :
      Turn m (.taking cursor w) (.round onward w')
  | decode {cursor onward : Nat} {w w' : Walk} (hnone : w.overlay.takeActive cursor = none)
      (hrun : w.decodeLine m cursor = .ok (onward, w')) :
      Turn m (.taking cursor w) (.round onward w')
  | fail {cursor : Nat} {w : Walk} {e : Script.Error} (hrest : rest m cursor w = .error e) :
      Turn m (.taking cursor w) (.done (.error e))

theorem turn_of_next {s s' : Stage} (h : s.next m = some s') : Turn m s s' := by
  cases s with
  | round cursor w =>
    by_cases hcursor : cursor < m.image.stop
    · rw [next_round hcursor] at h
      obtain rfl := Option.some.inj h
      exact .enter hcursor
    · rw [next_round_stop hcursor] at h
      obtain rfl := Option.some.inj h
      exact .finish hcursor
  | taking cursor w =>
    cases taken : w.overlay.takeActive cursor with
    | none =>
      rw [next_none taken] at h
      rcases after_eq_some h with ⟨a, hrun, rfl⟩ | ⟨e, hrun, rfl⟩
      · exact .decode taken hrun
      · exact .fail (by rw [rest_none taken, hrun])
    | some p =>
      obtain ⟨d, o⟩ := p
      rcases quiet_or_block cursor d with quiet | ⟨hlast, program, ha | ha⟩
      · rw [next_quiet taken quiet] at h
        obtain rfl := Option.some.inj h
        exact .adopt taken quiet
      · rw [next_dataBlock taken hlast ha] at h
        rcases after_eq_some h with ⟨a, hrun, rfl⟩ | ⟨e, hrun, rfl⟩
        · exact .render taken hlast ha hrun
        · exact .fail (by rw [rest_dataBlock taken hlast ha, hrun])
      · rw [next_patternBlock taken hlast ha] at h
        rcases after_eq_some h with ⟨a, hrun, rfl⟩ | ⟨e, hrun, rfl⟩
        · exact .search taken hlast ha hrun
        · exact .fail (by rw [rest_patternBlock taken hlast ha, hrun]; rfl)
  | done result => exact absurd h (by simp [next])

/-- Where the script that is run ends, there is a next turn, unless the walk is done. -/
theorem exists_next {s : Stage} (h : s.ScriptEnds m) :
    (∃ s', s.next m = some s') ∨ ∃ result, s = .done result := by
  cases s with
  | round cursor w => exact .inl ⟨_, rfl⟩
  | taking cursor w =>
    left
    unfold ScriptEnds at h
    cases taken : w.overlay.takeActive cursor with
    | none =>
      simp only [taken] at h
      rw [next_none taken]
      exact exists_after _ h
    | some p =>
      obtain ⟨d, o⟩ := p
      simp only [taken] at h
      rcases quiet_or_block cursor d with quiet | ⟨hlast, program, ha | ha⟩
      · exact ⟨_, next_quiet taken quiet⟩
      · have hends := h hlast
        simp only [ha] at hends
        rw [next_dataBlock taken hlast ha]
        exact exists_after _ hends
      · have hends := h hlast
        simp only [ha] at hends
        rw [next_patternBlock taken hlast ha]
        exact exists_after _ hends
  | done result => exact .inr ⟨result, rfl⟩

/-! ### Every sequence of turns is finite -/

/-- A directive is taken out of a list. -/
def Removes (d : Directive) (ds ds' : List Directive) : Prop :=
  ∃ before behind, ds = before ++ d :: behind ∧ ds' = before ++ behind

/-- **What a turn of the inner loop that goes on does to what is pending.** It uses up a pattern
block, whatever else a search adds, or it uses up another directive that is no plain comment and
leaves all the rest as it is. -/
inductive Shrinks (ds ds' : List Directive) : Prop
  | pattern (d : Directive) (hd : isPattern d = true)
      (removes : Removes d (ds.filter isPattern) (ds'.filter isPattern))
  | other (d : Directive) (hd : isPattern d = false) (hplain : d.isPlainComment = false)
      (removes : Removes d ds ds')

theorem Removes.length_eq {ds ds' : List Directive} (h : Removes d ds ds') :
    ds'.length + 1 = ds.length := by
  obtain ⟨before, behind, rfl, rfl⟩ := h
  rw [List.length_append, List.length_append, List.length_cons, Nat.add_assoc]

/-- A directive that is taken out is taken out of those of its kind. -/
theorem Removes.filter {ds ds' : List Directive} (h : Removes d ds ds') (keep : Directive → Bool) :
    if keep d then Removes d (ds.filter keep) (ds'.filter keep)
    else ds'.filter keep = ds.filter keep := by
  obtain ⟨before, behind, rfl, rfl⟩ := h
  rw [List.filter_append, List.filter_append, List.filter_cons]
  split
  · exact ⟨_, _, rfl, rfl⟩
  · rfl

/-- Taking a directive takes it out of what is pending. -/
theorem removes_takeActive (h : w.overlay.takeActive cursor = some (d, o)) :
    d.isPlainComment = false ∧ Removes d w.overlay.pending o.pending := by
  obtain ⟨skipped, tail, hds, hrest, -, hplain, -⟩ := Overlay.takeActive_split h
  exact ⟨hplain, skipped, tail, hds, hrest⟩

/-- **A turn of the inner loop that goes on shrinks what is pending.** -/
theorem shrinks_of_next {cursor' : Nat}
    (h : next m (.taking cursor w) = some (.taking cursor' w')) :
    cursor' = cursor ∧ Shrinks w.overlay.pending w'.overlay.pending := by
  cases turn_of_next h with
  | adopt taken quiet =>
    rename_i d o
    obtain ⟨hplain, hremoves⟩ := removes_takeActive taken
    refine ⟨rfl, ?_⟩
    rw [adopt_pending]
    change Shrinks _ o.pending
    -- A pattern block that has ended is dropped, without a search.
    cases hd : isPattern d with
    | true =>
      have hfilter := hremoves.filter isPattern
      rw [if_pos hd] at hfilter
      exact .pattern d hd hfilter
    | false => exact .other d hd hplain hremoves
  | search taken hlast hprogram hrun =>
    rename_i d o program
    have hd : isPattern d = true := by rw [isPattern, hprogram]
    have hfilter := (removes_takeActive taken).2.filter isPattern
    rw [if_pos hd] at hfilter
    refine ⟨rfl, .pattern d hd ?_⟩
    rw [filter_isPattern_patternBlock hrun]
    exact hfilter

/-- Pending pattern blocks become fewer, or they stay and pending directives become fewer. -/
theorem Shrinks.lt {ds ds' : List Directive} (h : Shrinks ds ds') :
    toLex (ds'.countP isPattern, ds'.length) < toLex (ds.countP isPattern, ds.length) := by
  rw [Prod.Lex.toLex_lt_toLex, List.countP_eq_length_filter, List.countP_eq_length_filter]
  cases h with
  | pattern d hd removes =>
    have hlength := removes.length_eq
    left
    omega
  | other d hd hplain removes =>
    have hlength := removes.length_eq
    have hfilter := removes.filter isPattern
    rw [if_neg (by simp [hd])] at hfilter
    right
    exact ⟨congrArg List.length hfilter, by simp only; omega⟩

/-- What falls with every turn: the bytes that are left, then the part of the round, then the pattern
blocks and the directives that are pending. -/
def rank (m : Machine) : Stage → ℕ ×ₗ ℕ ×ₗ ℕ ×ₗ ℕ
  | .round cursor _ =>
    toLex (m.image.stop - cursor,
      toLex (if cursor < m.image.stop then 3 else 1, toLex (0, 0)))
  | .taking cursor w =>
    toLex (m.image.stop - cursor,
      toLex (2, toLex (w.overlay.pending.countP isPattern, w.overlay.pending.length)))
  | .done _ => toLex (0, toLex (0, toLex (0, 0)))

theorem rank_next {s s' : Stage} (h : s.next m = some s') : s'.rank m < s.rank m := by
  have hround {cursor onward : Nat} {w w' : Walk} (hlt : cursor < onward) :
      rank m (.round onward w') < rank m (.taking cursor w) := by
    simp only [rank, Prod.Lex.toLex_lt_toLex]
    split <;> omega
  cases turn_of_next h with
  | enter hcursor =>
    simp only [rank, if_pos hcursor]
    exact .right _ (.left _ _ (by omega))
  | finish hcursor =>
    simp only [rank, if_neg hcursor, Prod.Lex.toLex_lt_toLex]
    omega
  | adopt taken quiet => exact .right _ (.right _ (shrinks_of_next h).2.lt)
  | search taken hlast hprogram hrun => exact .right _ (.right _ (shrinks_of_next h).2.lt)
  | render taken hlast hprogram hrun => exact hround (lt_of_dataBlock hrun)
  | decode hnone hrun => exact hround (lt_of_decodeLine hrun)
  | fail hrest =>
    simp only [rank, Prod.Lex.toLex_lt_toLex]
    omega

/-- **Every sequence of turns is finite.** -/
theorem next_wellFounded (m : Machine) : WellFounded fun s' s : Stage => s.next m = some s' :=
  Subrelation.wf rank_next (InvImage.wf (rank m) wellFounded_lt)

/-- Nothing comes behind the end. -/
theorem Leads.of_done {result : Except Script.Error Walk} {cursors : List Nat} {s : Stage}
    (h : Leads m (.done result) cursors s) : cursors = [] := by
  cases h with
  | refl => rfl
  | head turn rest => exact absurd turn (by simp [next])

/-- The first cursor that a round from a stage on can have. -/
def firstCursor : Stage → Nat
  | .round cursor _ => cursor
  | .taking cursor _ => cursor + 1
  | .done _ => 0

/-- **The cursors of rounds rise**, so there are no more rounds than bytes left. -/
theorem Leads.cursors_rise {s s' : Stage} {cursors : List Nat} (h : Leads m s cursors s') :
    cursors.Pairwise (· < ·) ∧ (∀ c ∈ cursors, s.firstCursor ≤ c) ∧
      cursors.length ≤ m.image.stop - s.firstCursor := by
  induction h with
  | refl s => exact ⟨.nil, List.forall_mem_nil _, Nat.zero_le _⟩
  | @head s s' s'' cursors turn rest ih =>
    obtain ⟨hrise, hfirst, hlength⟩ := ih
    have honward {cursor onward : Nat} {w w' : Walk} (hlt : cursor < onward)
        (hs : s = .taking cursor w) (hs' : s' = .round onward w') :
        (s.opened m ++ cursors).Pairwise (· < ·) ∧
          (∀ c ∈ s.opened m ++ cursors, s.firstCursor ≤ c) ∧
          (s.opened m ++ cursors).length ≤ m.image.stop - s.firstCursor := by
      subst hs hs'
      simp only [opened, firstCursor, List.nil_append] at hfirst hlength ⊢
      refine ⟨hrise, fun c hc => ?_, by omega⟩
      have := hfirst c hc
      omega
    cases turn_of_next turn with
    | enter hcursor =>
      simp only [opened, if_pos hcursor, firstCursor, List.singleton_append] at hfirst hlength ⊢
      refine ⟨List.pairwise_cons.2 ⟨hfirst, hrise⟩, ?_, ?_⟩
      · intro c hc
        rcases List.mem_cons.1 hc with rfl | hc
        · exact Nat.le_refl _
        · exact Nat.le_of_lt (hfirst c hc)
      · rw [List.length_cons]
        omega
    | finish hcursor =>
      obtain rfl := rest.of_done
      simp [opened, hcursor]
    | adopt taken quiet => exact ⟨hrise, hfirst, hlength⟩
    | search taken hlast hprogram hrun => exact ⟨hrise, hfirst, hlength⟩
    | render taken hlast hprogram hrun => exact honward (lt_of_dataBlock hrun) rfl rfl
    | decode hnone hrun => exact honward (lt_of_decodeLine hrun) rfl rfl
    | fail hrest =>
      obtain rfl := rest.of_done
      simp [opened]

/-! ### The turns lead to the result of the walk -/

/-- The result of the walk from a stage on, by the functions with bounds. -/
def result (m : Machine) (p : Progress) : Stage → Except Script.Error Walk
  | .round cursor w => (walkFrom m (m.image.stop - cursor) cursor w p).2
  | .taking cursor w =>
    (rest m cursor w).bind fun (next, w) => (walkFrom m (m.image.stop - next) next w p).2
  | .done result => result

/-- **No turn changes the result.** -/
theorem result_next (p : Progress) {s s' : Stage} (h : s.next m = some s') :
    s'.result m p = s.result m p := by
  cases turn_of_next h with
  | @enter cursor w hcursor =>
    obtain ⟨steps, hsteps⟩ : ∃ steps, m.image.stop - cursor = steps + 1 :=
      ⟨m.image.stop - cursor - 1, by omega⟩
    rw [result, result, hsteps, walkFrom, if_pos hcursor, step_eq_rest]
    cases hrest : rest m cursor (w.expire cursor) with
    | error e => rfl
    | ok r =>
      obtain ⟨onward, u⟩ := r
      obtain ⟨events, hstopped⟩ := stopped_of_step (step_eq_rest.trans hrest)
      have hlt := hstopped.lt
      exact walkFrom_congr p _ (by omega) (by omega)
  | finish hcursor =>
    rw [result, result, Nat.sub_eq_zero_of_le (Nat.not_lt.1 hcursor)]
    rfl
  | adopt taken quiet => rw [result, result, rest_quiet taken quiet]
  | search taken hlast hprogram hrun =>
    rw [result, result, rest_patternBlock taken hlast hprogram, hrun]
    rfl
  | render taken hlast hprogram hrun =>
    rw [result, result, rest_dataBlock taken hlast hprogram, hrun]
    rfl
  | decode hnone hrun =>
    rw [result, result, rest_none hnone, hrun]
    rfl
  | fail hrest =>
    rw [result, result, hrest]
    rfl

theorem Leads.result_eq (p : Progress) {s s' : Stage} {cursors : List Nat}
    (h : Leads m s cursors s') : s'.result m p = s.result m p := by
  induction h with
  | refl s => rfl
  | head turn rest ih => exact ih.trans (result_next p turn)

/-- **The turns lead to the result**, if the scripts on the way end. The induction is on the turns
that are left, which are finitely many. -/
theorem leads_result (p : Progress) (s : Stage)
    (hends : ∀ cursors s', Leads m s cursors s' → s'.ScriptEnds m) :
    ∃ cursors, Leads m s cursors (.done (s.result m p)) := by
  induction s using (next_wellFounded m).induction with
  | _ s ih =>
    rcases exists_next (hends [] s (.refl s)) with ⟨s', turn⟩ | ⟨result, rfl⟩
    · obtain ⟨cursors, hleads⟩ := ih s' turn fun cursors s'' h => hends _ s'' (.head turn h)
      rw [result_next p turn] at hleads
      exact ⟨_, .head turn hleads⟩
    · exact ⟨[], .refl _⟩

/-- A script that never ends is the end of the walk. -/
theorem scriptEnds_of_result {p : Progress} {s : Stage} (h : HasEnded (s.result m p)) :
    s.ScriptEnds m := by
  cases s with
  | round cursor w => trivial
  | done result => trivial
  | taking cursor w =>
    have hrest : HasEnded (rest m cursor w) := h.of_bind
    cases taken : w.overlay.takeActive cursor with
    | none =>
      rw [rest_none taken] at hrest
      simpa only [ScriptEnds, taken] using hrest
    | some q =>
      obtain ⟨d, o⟩ := q
      simp only [ScriptEnds, taken]
      intro hlast
      cases ha : d.annotation with
      | dataBlock program =>
        rw [rest_dataBlock taken hlast ha] at hrest
        exact hrest
      | patternBlock program =>
        rw [rest_patternBlock taken hlast ha] at hrest
        exact hrest.of_bind
      | _ => trivial

end Stage

open Stage

theorem result_round_origin (m : Machine) (w : Walk) (p : Progress) :
    (Stage.round m.image.origin.toNat w).result m p = (walk m w p).2 := by
  have hlength : m.image.stop - m.image.origin.toNat = m.image.length := by
    unfold Image.stop
    omega
  rw [result, hlength, walk]

/-- **The walk terminates.** If every script that is run on it ends, the turns of its loops lead to
an end, with the result that the walk has with its bounds. Rounds are at ever higher cursors, so
there are at most as many as the window has bytes. Every sequence of turns is finite, from whatever
stage: a turn of the inner loop that goes on leaves the cursor and uses up a pattern block, or uses
up another directive and adds none. -/
theorem walk_terminates (m : Machine) (w : Walk) (p : Progress) :
    ((∀ cursors s, Leads m (.round m.image.origin.toNat w) cursors s → s.ScriptEnds m) →
        ∃ cursors, Leads m (.round m.image.origin.toNat w) cursors (.done (walk m w p).2)) ∧
      (∀ cursors s, Leads m (.round m.image.origin.toNat w) cursors s →
        cursors.Pairwise (· < ·) ∧ cursors.length ≤ m.image.length) ∧
      (WellFounded fun s' s : Stage => s.next m = some s') ∧
      ∀ cursor u cursor' u', (Stage.taking cursor u).next m = some (.taking cursor' u') →
        cursor' = cursor ∧ Shrinks u.overlay.pending u'.overlay.pending := by
  refine ⟨?_, ?_, next_wellFounded m, fun cursor u cursor' u' => shrinks_of_next⟩
  · intro hends
    obtain ⟨cursors, hleads⟩ := leads_result p _ hends
    rw [result_round_origin] at hleads
    exact ⟨cursors, hleads⟩
  · intro cursors s hleads
    obtain ⟨hrise, -, hlength⟩ := hleads.cursors_rise
    have hstop : m.image.stop = m.image.origin.toNat + m.image.length := rfl
    simp only [firstCursor] at hlength
    exact ⟨hrise, by omega⟩

/-- A search at the first address adds two blocks, of which one has started already. It is rendered
before the format is taken up, and the walk ends after four rounds. -/
theorem walk_terminates_growingSample :
    let m : Machine := ⟨⟨#[0x00, 0x12, 0x34, 0xC3], 0, 0x8000, 4, by decide, by decide⟩,
      Spectrum.charset, Spectrum.floats⟩
    let ds : List Directive :=
      [⟨0x8000, 0x8001, .patternBlock "%(%)%(%K8A8A%(%PByteDump()%)%)"⟩,
        ⟨0x7000, 0x7FFF, .patternBlock "%(%)"⟩,
        ⟨0x8000, 0x8003, .format (.numberBase .decimal)⟩]
    (∀ cursors s, Leads m (.round 0x8000 (start {} ds)) cursors s → s.ScriptEnds m) ∧
      ∃ w cursors, (walk m (start {} ds) { total := 8 }).2 = .ok w ∧ w.lines.size = 4 ∧
        Leads m (.round 0x8000 (start {} ds)) cursors (.done (.ok w)) ∧ cursors.length ≤ 4 := by
  intro m ds
  have hlines : (walk m (start {} ds) { total := 8 }).2.toOption.map (fun w => w.lines.size) =
      some 4 := by
    decide +kernel
  obtain ⟨w, hw, hsize⟩ := exists_ok_of_toOption_map hlines
  have horigin : m.image.origin.toNat = 0x8000 := rfl
  have hends : ∀ cursors s, Leads m (.round m.image.origin.toNat (start {} ds)) cursors s →
      s.ScriptEnds m := by
    intro cursors s hleads
    refine scriptEnds_of_result (p := { total := 8 }) ?_
    rw [hleads.result_eq, result_round_origin, hw]
    trivial
  obtain ⟨hterminates, hbound, -⟩ := walk_terminates m (start {} ds) { total := 8 }
  obtain ⟨cursors, hleads⟩ := hterminates hends
  rw [hw] at hleads
  rw [horigin] at hends
  exact ⟨hends, w, cursors, hw, hsize, hleads, (hbound cursors _ hleads).2⟩

end Walk
end Disassembly
