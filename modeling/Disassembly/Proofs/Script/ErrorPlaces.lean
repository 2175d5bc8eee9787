/-
# Errors point at constructs

An error tells a line and a column, which are a position in the program (`position?_locate`). A run
comes to an error while some construct is at work, the innermost one if there are blocks inside each
other (`Stage.atWork`), and a construct is at work only if a block has come to its `%` before
(`Stage.Begun`). So an error points at the `%` of the construct at work, or at the end of a program
that ends inside a block, and it is the same for a block and for the whole program (`error_points`).
-/

import Disassembly.Proofs.Script.PatternLayout
import Disassembly.Proofs.Script.Termination

namespace Disassembly
namespace Script

open Source (isBreak skipNewline skipLayout skipToClose expectOpen)

/-! ### Lines and columns -/

/-- The position of a line and a column, both from one, in a text whose lines end with line feeds. The
column behind the last character of a line is that of its line feed, or of the end of the text. -/
def position? : Nat → Nat → List Char → Option Nat
  | 1, 1, _ => some 0
  | 1, column + 2, c :: cs => if c = '\n' then none else (position? 1 (column + 1) cs).map (· + 1)
  | line + 2, column, c :: cs =>
    (position? (if c = '\n' then line + 1 else line + 2) column cs).map (· + 1)
  | _, _, _ => none

/-- How many characters of a line stand before a position, counted back to the last line feed. -/
def lineOffset (before : List Char) : Nat := (before.reverse.takeWhile (· ≠ '\n')).length

/-- A character counts if it is no line feed and no line feed follows it. -/
theorem lineOffset_cons (c : Char) (before : List Char) : lineOffset (c :: before) =
    if '\n' ∈ before ∨ c = '\n' then lineOffset before else lineOffset before + 1 := by
  unfold lineOffset
  rw [List.reverse_cons, List.takeWhile_append]
  by_cases hmem : '\n' ∈ before
  · have hshort : (before.reverse.takeWhile (· ≠ '\n')).length ≠ before.reverse.length := by
      intro hlength
      have hall := (List.takeWhile_prefix (· ≠ '\n')).eq_of_length hlength
      have hlast := List.mem_takeWhile_imp (hall.symm ▸ List.mem_reverse.2 hmem)
      exact absurd hlast (by decide)
    rw [if_neg hshort, if_pos (.inl hmem)]
  · have hall : before.reverse.takeWhile (· ≠ '\n') = before.reverse := by
      refine List.takeWhile_eq_self_iff.2 fun d hd => ?_
      rw [decide_eq_true_eq]
      rintro rfl
      exact hmem (List.mem_reverse.1 hd)
    rw [if_pos (by rw [hall]), hall]
    by_cases hc : c = '\n'
    · simp [hc]
    · simp [hmem, hc]

/-- The line and the column of a position lead back to it. -/
theorem position?_append (before rest : List Char) :
    position? (before.count '\n' + 1) (lineOffset before + 1) (before ++ rest) =
      some before.length := by
  induction before with
  | nil =>
    cases rest with
    | nil => rfl
    | cons c rest => rfl
  | cons c before ih =>
    rw [lineOffset_cons, List.cons_append, List.length_cons]
    by_cases hc : c = '\n'
    · subst hc
      rw [List.count_cons_self, if_pos (.inr rfl), position?, if_pos rfl, ih]
      rfl
    · rw [List.count_cons_of_ne hc]
      by_cases hmem : '\n' ∈ before
      · obtain ⟨k, hk⟩ := Nat.exists_eq_succ_of_ne_zero (List.count_pos_iff.2 hmem).ne'
        rw [hk] at ih ⊢
        rw [if_pos (.inl hmem), position?, if_neg hc]
        exact congrArg (Option.map (· + 1)) ih
      · have hzero : before.count '\n' = 0 := List.count_eq_zero.2 hmem
        rw [hzero] at ih ⊢
        rw [if_neg (by simp [hmem, hc]), position?, if_neg hc, ih]
        rfl

/-- **An error points at where its construct begins.** -/
theorem position?_locate {program construct : List Char} (h : construct <:+ program)
    (kind : ErrorKind) (address : UInt16) :
    position? (locate program construct kind address).line
        (locate program construct kind address).column program =
          some (program.length - construct.length) ∧
      program.drop (program.length - construct.length) = construct := by
  obtain ⟨before, rfl⟩ := h
  have hlength : (before ++ construct).length - construct.length = before.length := by
    rw [List.length_append, Nat.add_sub_cancel]
  have hbefore : (before ++ construct).take before.length = before := List.take_left
  rw [locate, hlength, hbefore]
  exact ⟨position?_append before construct, List.drop_left⟩

/-! ### The construct at work -/

/-- Each construct at which a block waits has a property. -/
def Stack.All (Q : List Char → Prop) : Stack → Prop
  | push f stack => Q f.construct ∧ stack.All Q
  | _ => True

namespace Stage

/-- The construct at work at a stage, the innermost one if blocks are inside each other. -/
def atWork : Stage → Option (List Char)
  | .reading _ _ ('%' :: cs) _ => some ('%' :: cs)
  | .leaving _ _ construct _ _ _ => some construct
  | .returned (.push f _) _ _ _ => some f.construct
  | _ => none

/-- The constructs that a stage keeps to be at work later have a property. -/
def Around (Q : List Char → Prop) : Stage → Prop
  | .reading stack _ _ _ => stack.All Q
  | .leaving stack _ construct _ _ _ => Q construct ∧ stack.All Q
  | .beginning stack f _ _ => Q f.construct ∧ stack.All Q
  | .returned stack _ _ _ => stack.All Q
  | .seeking .. | .done .. | .failed .. => True

/-- A stage that is an error is one at a construct with a property, or at the end of a program that
ends inside a block. -/
def FailsAt (P : List Char → Prop) : Stage → Prop
  | .failed kind construct _ => P construct ∨ construct = [] ∧ kind = .missingClose
  | _ => True

/-- What a turn to a stage keeps to: the construct at work and those around it. -/
def Keeps (P Q : List Char → Prop) (t : Stage) : Prop := t.Around Q ∧ t.FailsAt P

variable {P Q : List Char → Prop} {setting : Setting} {program : List Char} {stack : Stack}
  {block : Block} {f : Frame} {cs rest construct : List Char} {c c' : Context}
  {first s t u : Stage} {path : List Stage} {e : Error}

theorem keeps_read {α : Type} {onward : α → Stage} {r : Except ErrorKind α} (hP : P construct)
    (h : ∀ a, (onward a).Keeps P Q) : (read construct c onward r).Keeps P Q := by
  cases r with
  | ok a => exact h a
  | error kind => exact ⟨trivial, .inl hP⟩

theorem keeps_after {α : Type} {onward : α → Context → Stage}
    {r : EStateM.Result ErrorKind Context α} (hP : P construct)
    (h : ∀ a c', (onward a c').Keeps P Q) : (after construct onward r).Keeps P Q := by
  cases r with
  | ok a c' => exact h a c'
  | error kind c' => exact ⟨trivial, .inl hP⟩

theorem keeps_enter (hP : P f.construct) (h : (Stack.push f stack).All Q) :
    (enter stack f cs c).Keeps P Q :=
  keeps_read hP fun _ => ⟨h, trivial⟩

theorem keeps_onward (signal : Signal) (hQ : Q construct) (hstack : stack.All Q) :
    (onward stack block construct signal rest c).Keeps P Q := by
  unfold onward
  split
  · exact ⟨hstack, trivial⟩
  · exact ⟨⟨hQ, hstack⟩, trivial⟩

/-- Behind a block, the construct at work is the one that the block is inside. -/
theorem keeps_behind (outcome : Outcome) (rest : List Char) (c : Context) (hP : P f.construct)
    (h : (Stack.push f stack).All Q) : (behind stack f outcome rest c).Keeps P Q := by
  obtain ⟨block, text, purpose⟩ := f
  obtain ⟨hQ, hstack⟩ := h
  cases purpose with
  | result => exact keeps_onward _ hQ hstack
  | test =>
    refine keeps_read hP fun yes => ?_
    split
    · exact ⟨⟨hQ, hstack⟩, trivial⟩
    · refine keeps_read hP fun rest' => ?_
      split
      · exact keeps_enter hP ⟨hQ, hstack⟩
      · exact ⟨hstack, trivial⟩
  | yes => exact keeps_read hP fun _ => keeps_onward _ hQ hstack
  | no => exact keeps_onward _ hQ hstack
  | loopTest rounds =>
    refine keeps_read hP fun body => ?_
    split
    · split
      · exact ⟨⟨hQ, hstack⟩, trivial⟩
      · exact ⟨trivial, .inl hP⟩
    · exact keeps_read hP fun _ => ⟨hstack, trivial⟩
  | loopBody rounds =>
    dsimp only [behind]
    split
    · exact ⟨hstack, trivial⟩
    · exact keeps_enter hP ⟨hQ, hstack⟩

/-- At a construct, that construct is at work. -/
theorem keeps_atConstruct (h : atConstruct setting stack block c cs = some t) (hP : P ('%' :: cs))
    (hQ : Q ('%' :: cs)) (hstack : stack.All Q) : t.Keeps P Q := by
  cases cs with
  | nil => exact Option.some.inj h ▸ ⟨trivial, .inl hP⟩
  | cons tag cs =>
    simp only [atConstruct] at h
    split at h
    · exact Option.some.inj h ▸ ⟨⟨hQ, hstack⟩, trivial⟩
    · obtain rfl := Option.some.inj h
      split
      · exact ⟨hstack, trivial⟩
      · exact ⟨trivial, .inl hP⟩
    · exact Option.some.inj h ▸ keeps_after hP fun _ _ => ⟨hstack, trivial⟩
    · split at h
      · exact absurd h (by simp)
      · exact Option.some.inj h ▸ keeps_after hP fun _ _ => ⟨hstack, trivial⟩
    · exact Option.some.inj h ▸ keeps_enter (f := ⟨block, cs, .test⟩) hP ⟨hQ, hstack⟩
    · exact Option.some.inj h ▸ keeps_enter (f := ⟨block, cs, .loopTest 0⟩) hP ⟨hQ, hstack⟩
    · exact Option.some.inj h ▸ ⟨⟨hQ, hstack⟩, trivial⟩
    · exact Option.some.inj h ▸ ⟨⟨hQ, hstack⟩, trivial⟩
    · exact Option.some.inj h ▸ keeps_after hP fun _ _ => ⟨hstack, trivial⟩

/-- The turns of a search are no errors, and begin with no block around. -/
theorem keeps_seek (seek : Seek) (c : Context) : (Stage.seek seek c).Keeps P Q := by
  unfold Stage.seek
  split
  · exact ⟨trivial, trivial⟩
  · dsimp only
    split
    · exact ⟨trivial, trivial⟩
    · exact ⟨trivial, trivial⟩

theorem keeps_tested (seek : Seek) (outcome : Outcome) (rest : List Char) (c : Context) :
    (tested seek outcome rest c).Keeps P Q := by
  unfold tested
  split
  · split
    · exact ⟨trivial, trivial⟩
    · exact ⟨trivial, trivial⟩
  · exact ⟨trivial, trivial⟩

/-- **A turn fails at the construct at work only**, and keeps to the constructs around it. -/
theorem keeps_next (h : s.next setting = some t) (hs : s.Around Q)
    (hP : ∀ construct, s.atWork = some construct → P construct)
    (hQ : ∀ construct, s.atWork = some construct → Q construct) : t.Keeps P Q := by
  cases s with
  | reading stack block rest c =>
    cases rest with
    | nil =>
      obtain rfl := Option.some.inj h
      split
      · exact ⟨trivial, .inr ⟨rfl, rfl⟩⟩
      · exact ⟨hs, trivial⟩
    | cons char cs =>
      rw [next] at h
      split at h
      · exact Option.some.inj h ▸ ⟨hs, trivial⟩
      · split at h
        · rename_i hpercent
          subst hpercent
          exact keeps_atConstruct h (hP _ rfl) (hQ _ rfl) hs
        · exact Option.some.inj h ▸ ⟨hs, trivial⟩
  | leaving stack block construct signal rest c =>
    obtain rfl := Option.some.inj h
    split
    · exact keeps_read (hP _ rfl) fun _ => ⟨hs.2, trivial⟩
    · exact ⟨hs.2, trivial⟩
  | beginning stack f body c => exact Option.some.inj h ▸ ⟨hs, trivial⟩
  | returned stack outcome rest c =>
    cases stack with
    | program => exact Option.some.inj h ▸ ⟨trivial, trivial⟩
    | test seek => exact Option.some.inj h ▸ keeps_tested seek outcome rest c
    | action seek => exact Option.some.inj h ▸ ⟨trivial, trivial⟩
    | push f stack => exact Option.some.inj h ▸ keeps_behind outcome rest c (hP _ rfl) hs
  | seeking seek c => exact Option.some.inj h ▸ keeps_seek seek c
  | done verdict c => exact absurd h (by simp [next])
  | failed kind construct c => exact absurd h (by simp [next])

/-! ### Constructs that a run has come to -/

/-- A block of a run has come to a construct, at its `%`. -/
def Begun (setting : Setting) (first : Stage) (construct : List Char) : Prop :=
  (∃ cs, construct = '%' :: cs) ∧
    ∃ stack block c, Reaches setting first (.reading stack block construct c)

/-- **A construct is at work only if a block has come to it.** -/
theorem begun_of_atWork (hreaches : Reaches setting first s) (hs : s.Around (Begun setting first))
    (h : s.atWork = some construct) : Begun setting first construct := by
  unfold atWork at h
  split at h
  · obtain rfl := Option.some.inj h
    exact ⟨⟨_, rfl⟩, _, _, _, hreaches⟩
  · exact Option.some.inj h ▸ hs.1
  · exact Option.some.inj h ▸ hs.1
  · exact absurd h (by simp)

/-- A run keeps to constructs that it has come to. The induction is on the turns. -/
theorem Turns.around (h : Turns setting s path t) (hreaches : Reaches setting first s)
    (hs : s.Around (Begun setting first)) : t.Around (Begun setting first) := by
  induction h with
  | refl s => exact hs
  | @head s s' t path turn rest ih =>
    have hwork (construct : List Char) (h : s.atWork = some construct) :
        Begun setting first construct := begun_of_atWork hreaches hs h
    exact ih (hreaches.trans (.head turn (.refl s'))) (keeps_next turn hs hwork hwork).1

/-- What turns lead to, the last of them leads to. -/
theorem Turns.exists_last (h : Turns setting s path t) :
    s = t ∨ ∃ u, Reaches setting s u ∧ u.next setting = some t := by
  induction h with
  | refl s => exact .inl rfl
  | @head s s' t path turn rest ih =>
    refine .inr ?_
    rcases ih with rfl | ⟨u, hu, hlast⟩
    · exact ⟨s, .refl s, turn⟩
    · exact ⟨u, .head turn hu, hlast⟩

/-- **An error points at a construct**: its line and column are a position in the program. The `%` of
a construct stands there that a block of the run has come to and that was at work at the last stage
before the error, and the snippet is the program from there on, up to 16 characters. Or else the
program ends there, within a block. -/
def PointsAt (setting : Setting) (program : List Char) (first : Stage) (e : Error) : Prop :=
  ∃ p, position? e.line e.column program = some p ∧ p ≤ program.length ∧
    ((Begun setting first (program.drop p) ∧
        e.snippet = String.ofList ((program.drop p).take 16) ∧
        ∃ s, Reaches setting first s ∧ s.atWork = some (program.drop p) ∧
          ∀ t, s.next setting = some t → t.next setting = none) ∨
      (p = program.length ∧ e.snippet = "" ∧ e.kind = .missingClose))

/-- A first stage: there are no constructs around it, it is no error, and it stands in the program. -/
structure First (program : List Char) (first : Stage) : Prop where
  around : ∀ Q, first.Around Q
  ne_failed : ∀ kind construct c, first ≠ .failed kind construct c
  within : first.spot.Within program

theorem first_start (program : String) (c : Context) : First program.toList (start program c) :=
  ⟨fun _ => trivial, fun _ _ _ => Stage.noConfusion, start_within program c⟩

theorem first_startPattern (program : String) (c : Context) :
    First program.toList (startPattern program c) :=
  ⟨fun _ => trivial, fun _ _ _ => Stage.noConfusion, startPattern_within program c⟩

/-- A construct that a run has come to is a part of the program. -/
theorem Begun.suffix (h : Begun setting first construct) (hfirst : First program first) :
    construct <:+ program := by
  obtain ⟨-, stack, block, c, path, hpath⟩ := h
  exact (hpath.within hfirst.within).suffix

/-- **A stage that fails points at a construct.** -/
theorem pointsAt_of_fails (hfirst : First program first) (hreaches : Reaches setting first t)
    (hfails : Fails setting program t e c') : PointsAt setting program first e := by
  have hend := hfails.next_eq
  -- Whatever the construct at work, its place is that of the error.
  have hpoints {construct : List Char} {kind : ErrorKind} {address : UInt16} {s : Stage}
      (hs : Reaches setting first s) (hwork : s.atWork = some construct)
      (hbegun : Begun setting first construct)
      (hlast : ∀ t, s.next setting = some t → t.next setting = none) :
      PointsAt setting program first (locate program construct kind address) := by
    obtain ⟨hposition, hdrop⟩ := position?_locate (hbegun.suffix hfirst) kind address
    refine ⟨_, hposition, Nat.sub_le _ _, .inl ?_⟩
    rw [hdrop]
    exact ⟨hbegun, rfl, s, hs, hwork, hlast⟩
  cases hfails with
  | failed kind construct =>
    obtain ⟨path, hpath⟩ := hreaches
    rcases hpath.exists_last with rfl | ⟨s, hs, hlast⟩
    · exact absurd rfl (hfirst.ne_failed _ _ _)
    · obtain ⟨path', hpath'⟩ := hs
      have haround := hpath'.around (.refl first) (hfirst.around _)
      have hbegun (construct : List Char) (h : s.atWork = some construct) :
          Begun setting first construct := begun_of_atWork ⟨path', hpath'⟩ haround h
      obtain ⟨-, hwork | ⟨rfl, rfl⟩⟩ :=
        keeps_next (P := fun construct => s.atWork = some construct) hlast haround
          (fun _ h => h) hbegun
      · refine hpoints ⟨path', hpath'⟩ hwork (hbegun _ hwork) fun t ht => ?_
        exact Option.some.inj (hlast.symm.trans ht) ▸ rfl
      · obtain ⟨hposition, -⟩ :=
          position?_locate (List.nil_suffix (l := program)) .missingClose c'.currentAddress
        exact ⟨_, hposition, Nat.sub_le _ _, .inr ⟨rfl, rfl, rfl⟩⟩
  | hangs hcall =>
    refine hpoints hreaches rfl ⟨⟨_, rfl⟩, _, _, _, hreaches⟩ fun t ht => ?_
    exact absurd (hend.symm.trans ht) (by simp)

/-! ### Blocks and whole programs -/

/-- A stage fails with one error. -/
theorem Fails.unique {e' : Error} {c'' : Context} (h : Fails setting program t e c')
    (h' : Fails setting program t e' c'') : e = e' ∧ c' = c'' := by
  cases h with
  | failed kind construct =>
    cases h'
    exact ⟨rfl, rfl⟩
  | hangs hcall =>
    cases h' with
    | hangs hcall' =>
      obtain ⟨-, rfl⟩ := EStateM.Result.error.inj (hcall.symm.trans hcall')
      exact ⟨rfl, rfl⟩

/-- **The error of a stage is that of the run that comes to it.** -/
theorem Settles.eq_error {α β : Type} {verdict : α → Verdict} {onward : β → Context → Stage}
    {r : EStateM.Result Error Context α}
    (h : Settles setting program first (fun a c => .done (verdict a) c) r)
    (hreaches : Reaches setting first s)
    (hs : Settles setting program s onward (.error e c')) : r = .error e c' := by
  have hfirst : Settles setting program first (fun (a : α) c => .done (verdict a) c)
      (.error e c') := Settles.of_reaches hreaches hs
  rcases h.same_end hfirst with ⟨_, _, _, -, hok, -⟩ | ⟨t, _, _, _, _, rfl, herror, hfails, hfails'⟩
  · exact absurd hok (by simp)
  · obtain ⟨rfl, rfl⟩ := EStateM.Result.error.inj herror
    obtain ⟨rfl, rfl⟩ := hfails.unique hfails'
    rfl

/-- The error of a block that a run comes to is that of the run. -/
theorem Settles.eq_error_of_block {α : Type} {verdict : α → Verdict}
    {r : EStateM.Result Error Context α} (hfirst : First program first)
    (h : Settles setting program first (fun a c => .done (verdict a) c) r)
    (hreaches : Reaches setting first (.reading stack block rest c))
    (hblock : Script.block setting program (program.length + 1) block.isNested block.running rest c =
      .error e c') : r = .error e c' := by
  obtain ⟨path, hpath⟩ := hreaches
  have hrest := (hpath.within hfirst.within).suffix.length_le
  have hsettles : Settles setting program (.reading stack block rest c)
      (fun r c => .returned stack r.1 r.2 c) (Script.block setting program (program.length + 1)
        block.isNested block.running rest c) := block_settles stack block c (Nat.lt_succ_of_le hrest)
  rw [hblock] at hsettles
  exact h.eq_error ⟨path, hpath⟩ hsettles

end Stage

open Stage

/-- **Script errors point at constructs.** If a program fails over a data block, or over a pattern
block, the line and the column of its error are a position in the program. Either the construct at
work begins there, or the program ends there within a block (`PointsAt`). The error of any block that
the run comes to, however many constructs it is inside, is the error of the program as it is. -/
theorem error_points (setting : Setting) (program : String) (c : Context) :
    (∀ e c', run setting program c = .error e c' →
      PointsAt setting program.toList (start program c) e) ∧
    (∀ e c', runPattern setting program c = .error e c' →
      PointsAt setting program.toList (startPattern program c) e) ∧
    ∀ stack block rest c₁ e c',
      Script.block setting program.toList (program.toList.length + 1) block.isNested block.running
          rest c₁ = .error e c' →
        (Reaches setting (start program c) (.reading stack block rest c₁) →
          run setting program c = .error e c') ∧
        (Reaches setting (startPattern program c) (.reading stack block rest c₁) →
          runPattern setting program c = .error e c') := by
  refine ⟨?_, ?_, ?_⟩
  · intro e c' hrun
    have hsettles := run_settles setting program c
    rw [hrun] at hsettles
    obtain ⟨t, hreaches, hfails⟩ := hsettles
    exact pointsAt_of_fails (first_start program c) hreaches hfails
  · intro e c' hrun
    have hsettles := runPattern_settles setting program c
    rw [hrun] at hsettles
    obtain ⟨t, hreaches, hfails⟩ := hsettles
    exact pointsAt_of_fails (first_startPattern program c) hreaches hfails
  · intro stack block rest c₁ e c' hblock
    constructor
    · intro hreaches
      exact (run_settles setting program c).eq_error_of_block (first_start program c) hreaches hblock
    · intro hreaches
      exact (runPattern_settles setting program c).eq_error_of_block (first_startPattern program c)
        hreaches hblock

/-- Where an error is told to be, and its snippet. -/
def placeOf {α : Type} : EStateM.Result Error Context α → Option (Nat × Nat × String)
  | .ok _ _ => none
  | .error e _ => some (e.line, e.column, e.snippet)

/-- A slot that is only read is set inside a block in the second line, behind its indentation. The
error of the block is the error of the program, and points at the `%X`. -/
theorem error_points_nestedSample :
    let program := "ab\n  %(%X0AC00001%)"
    let c := Context.start byteSample (.ofList []) ∅ 0x8000 0x8000
    ∃ e c', run byteSample program c = .error e c' ∧ e.line = 2 ∧ e.column = 5 ∧
      e.snippet = "%X0AC00001%)" ∧ PointsAt byteSample program.toList (start program c) e := by
  intro program c
  let body : List Char := ['%', 'X', '0', 'A', 'C', '0', '0', '0', '0', '1', '%', ')']
  let text := '%' :: '(' :: body
  let c₀ := c.pushChar byteSample (byteSample.charset.translate 'a')
  let c₁ := c₀.pushChar byteSample (byteSample.charset.translate 'b')
  let outer : Block := { isNested := false }
  have htext : skipNewline program.toList = 'a' :: 'b' :: '\n' :: ' ' :: ' ' :: text := by decide
  have ha : next byteSample (start program c) =
      some (.reading .program outer ('b' :: '\n' :: ' ' :: ' ' :: text) c₀) := by
    rw [start, htext]
    rfl
  have hb : next byteSample (.reading .program outer ('b' :: '\n' :: ' ' :: ' ' :: text) c₀) =
      some (.reading .program outer ('\n' :: ' ' :: ' ' :: text) c₁) := rfl
  have hline : next byteSample (.reading .program outer ('\n' :: ' ' :: ' ' :: text) c₁) =
      some (.reading .program outer text c₁) := rfl
  have hreaches : Reaches byteSample (start program c)
      (.reading (.push ⟨outer, body, .result⟩ .program) { isNested := true } body c₁) :=
    .head ha (.head hb (.head hline (.head rfl (.refl _))))
  have hplace : placeOf (block byteSample program.toList (program.toList.length + 1) true {} body c₁) =
      some (2, 5, "%X0AC00001%)") := by
    decide +kernel
  obtain ⟨hpoints, -, hinner⟩ := error_points byteSample program c
  cases hblock : block byteSample program.toList (program.toList.length + 1) true {} body c₁ with
  | ok r c' =>
    rw [hblock] at hplace
    exact absurd hplace (by simp [placeOf])
  | error e c' =>
    rw [hblock] at hplace
    have hfields := Option.some.inj hplace
    have hrun := (hinner _ { isNested := true } _ _ _ _ hblock).1 hreaches
    exact ⟨e, c', hrun, congrArg Prod.fst hfields, congrArg (·.2.1) hfields,
      congrArg (·.2.2) hfields, hpoints e c' hrun⟩

end Script
end Disassembly
