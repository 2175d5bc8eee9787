/-
# Runs of scripts move forward and end

Each turn of a run is one of a few kinds (`Turn`): it goes on with what is left of the script,
enters a block or leaves one, or turns from a block to the next one of the same construct. All of
them move forward in the script but one, by which a loop goes back from its body to its own test.
What is left of the script lies behind the construct that each block around waits at
(`Stack.Within`), so there are no more blocks around than pairs of characters in the program, and a
loop that keeps count of its rounds begins no more of them than it may (`Turns.countP_rounds_le`).
Runs end for that reason, except where a routine that is called never returns (`run_moves_forward`).
-/

import Disassembly.Proofs.Script.Turns

namespace Disassembly
namespace Script

open Source (isBreak skipNewline skipLayout skipIndent skipToClose expectOpen)

/-- Where an end of a script begins, two characters on. -/
theorem Source.exists_drop_of_suffix {a b : Char} {cs rest : List Char} {p : Nat}
    (h : a :: b :: rest <:+ cs.drop p) :
    ∃ q, rest = cs.drop q ∧ p + 2 ≤ q ∧ q ≤ cs.length := by
  have hlength := h.length_le
  rw [List.length_drop, List.length_cons, List.length_cons] at hlength
  refine ⟨cs.length - rest.length, ?_, by omega, by omega⟩
  exact List.suffix_iff_eq_drop.1 ((suffix_of_two h).trans (List.drop_suffix p cs))

/-! ### Where runs stand -/

/-- The test of a search, without its bracket if there is one. -/
def unbracketed (text : List Char) : List Char := (open? text).getD text

theorem unbracketed_suffix (text : List Char) : unbracketed text <:+ text := by
  unfold unbracketed
  cases hopen : open? text with
  | none => exact List.suffix_refl _
  | some body => exact Source.suffix_of_two (Stage.open_suffix hopen)

/-- How many brackets stand open around the text at hand. -/
def Stack.depth : Stack → Nat
  | program => 0
  | test seek => if (open? seek.text).isSome then 1 else 0
  | action _ => 1
  | push _ stack => stack.depth + 1

/-- Where a run stands. -/
inductive Spot
  /-- In the script, where a loop may begin a round. -/
  | text (stack : Stack) (rest : List Char) (begins : Bool)
  /-- At the next address of a search. -/
  | search (seek : Seek)
  /-- At its end. -/
  | ended

/-- How many brackets stand open. -/
def Spot.depth : Spot → Nat
  | text stack _ _ => stack.depth
  | search _ | ended => 0

/-- Whether a loop begins a round with a body at the given depth. -/
def Spot.beginsAt (depth : Nat) : Spot → Bool
  | text stack _ begins => begins && stack.depth = depth
  | search _ | ended => false

/-- Where a stage stands. -/
def Stage.spot : Stage → Spot
  | .reading stack _ rest _ => .text stack rest false
  | .leaving stack _ _ _ rest _ => .text stack rest false
  | .beginning stack f body _ => .text (.push f stack) body true
  | .returned stack _ rest _ => .text stack rest false
  | .seeking seek _ => .search seek
  | .done .. => .ended
  | .failed .. => .ended

/-- **What one turn can do.** -/
inductive Turn : Spot → Spot → Prop
  | stop {spot : Spot} : Turn spot .ended
  | onward {stack : Stack} {rest rest' : List Char} {begins : Bool} (h : rest' <:+ rest) :
      Turn (.text stack rest begins) (.text stack rest' false)
  | enter {stack : Stack} {f : Frame} {body : List Char} (h : body <:+ f.text)
      (hfirst : f.purpose = .result ∨ f.purpose = .test ∨ f.purpose = .loopTest 0) :
      Turn (.text stack f.construct false) (.text (.push f stack) body false)
  | leave {stack : Stack} {f : Frame} {rest rest' : List Char} (h : rest' <:+ rest) :
      Turn (.text (.push f stack) rest false) (.text stack rest' false)
  | branch {stack : Stack} {block : Block} {text rest rest' : List Char} {purpose : Purpose}
      (h : rest' <:+ rest) (hbranch : purpose = .yes ∨ purpose = .no) :
      Turn (.text (.push ⟨block, text, .test⟩ stack) rest false)
        (.text (.push ⟨block, text, purpose⟩ stack) rest' false)
  | round {stack : Stack} {block : Block} {text rest rest' : List Char} {rounds : Nat}
      (h : rest' <:+ rest) (hrounds : rounds < maxRounds) :
      Turn (.text (.push ⟨block, text, .loopTest rounds⟩ stack) rest false)
        (.text (.push ⟨block, text, .loopBody (rounds + 1)⟩ stack) rest' true)
  | back {stack : Stack} {block : Block} {text rest test : List Char} {rounds : Nat}
      (h : expectOpen text = .ok test) :
      Turn (.text (.push ⟨block, text, .loopBody rounds⟩ stack) rest false)
        (.text (.push ⟨block, text, .loopTest rounds⟩ stack) test false)
  | act {seek : Seek} {rest action : List Char} (hopen : (open? seek.text).isSome)
      (h : '%' :: '(' :: action <:+ rest) :
      Turn (.text (.test seek) rest false) (.text (.action seek) action false)
  | found {stack : Stack} {seek : Seek} {rest : List Char} (found : Bool)
      (h : stack = .test seek ∨ stack = .action seek) :
      Turn (.text stack rest false) (.search (seek.next found))
  | seek (seek : Seek) (count : Nat) :
      Turn (.search seek) (.text (.test { seek with count }) (unbracketed seek.text) false)

/-! ### Turns of stages -/

namespace Stage

variable {setting : Setting} {program cs rest : List Char} {stack : Stack} {block : Block}
  {f : Frame} {c : Context} {spot : Spot} {s t : Stage}

theorem turn_read {α : Type} {construct : List Char} {onward : α → Stage} {r : Except ErrorKind α}
    (h : ∀ a, r = .ok a → Turn spot (onward a).spot) :
    Turn spot (read construct c onward r).spot := by
  cases r with
  | ok a => exact h a rfl
  | error kind => exact .stop

theorem turn_after {α : Type} {construct : List Char} {onward : α → Context → Stage}
    {r : EStateM.Result ErrorKind Context α}
    (h : ∀ a c', r = .ok a c' → Turn spot (onward a c').spot) :
    Turn spot (after construct onward r).spot := by
  cases r with
  | ok a c' => exact h a c' rfl
  | error kind c' => exact .stop

theorem onward_spot (stack : Stack) (block : Block) (construct : List Char) (signal : Signal)
    (rest : List Char) (c : Context) :
    (onward stack block construct signal rest c).spot = .text stack rest false := by
  unfold onward
  split <;> rfl

theorem turn_enter (h : ∀ body, body <:+ cs → Turn spot (.text (.push f stack) body false)) :
    Turn spot (enter stack f cs c).spot :=
  turn_read fun body hopen => h body (Source.suffix_of_two (Source.expectOpen_suffix hopen))

/-- The turns behind a block inside a construct. -/
theorem turn_behind (stack : Stack) (f : Frame) (outcome : Outcome) (rest : List Char)
    (c : Context) :
    Turn (.text (.push f stack) rest false) (behind stack f outcome rest c).spot := by
  obtain ⟨block, text, purpose⟩ := f
  cases purpose with
  | result =>
    dsimp only [behind]
    rw [onward_spot]
    exact .leave (List.suffix_refl _)
  | test =>
    refine turn_read fun yes hyes => ?_
    have hyes := Source.suffix_of_two (Source.expectOpen_suffix hyes)
    split
    · exact .branch hyes (.inl rfl)
    · refine turn_read fun rest' hskip => ?_
      have hrest := (Source.suffix_of_two (Source.skipToClose_suffix hskip)).trans hyes
      split
      · rename_i otherwise helse
        refine turn_enter fun body hbody => ?_
        exact .branch (hbody.trans ((else_suffix helse).trans hrest)) (.inr rfl)
      · exact .leave hrest
  | yes =>
    refine turn_read fun rest' hafter => ?_
    rw [onward_spot]
    exact .leave (afterElse_suffix hafter)
  | no =>
    dsimp only [behind]
    rw [onward_spot]
    exact .leave (List.suffix_refl _)
  | loopTest rounds =>
    refine turn_read fun body hbody => ?_
    have hbody := Source.suffix_of_two (Source.expectOpen_suffix hbody)
    split
    · split
      · exact .round hbody ‹_›
      · exact .stop
    · refine turn_read fun rest' hskip => ?_
      exact .leave ((Source.suffix_of_two (Source.skipToClose_suffix hskip)).trans hbody)
  | loopBody rounds =>
    dsimp only [behind]
    split
    · exact .leave (List.suffix_refl _)
    · exact turn_read fun test htest => .back htest

/-- The turns at a construct. -/
theorem turn_atConstruct (h : atConstruct setting stack block c cs = some t) :
    Turn (.text stack ('%' :: cs) false) t.spot := by
  cases cs with
  | nil => exact Option.some.inj h ▸ .stop
  | cons tag cs =>
    have hcs : cs <:+ '%' :: tag :: cs := (List.suffix_cons tag cs).trans (List.suffix_cons '%' _)
    simp only [atConstruct] at h
    split at h
    · obtain rfl := Option.some.inj h
      exact .enter (f := ⟨block, cs, .result⟩) (List.suffix_refl _) (.inl rfl)
    · obtain rfl := Option.some.inj h
      split
      · exact .onward hcs
      · exact .stop
    · obtain rfl := Option.some.inj h
      refine turn_after ?_
      rintro ⟨running, rest⟩ c' hrun
      exact .onward ((reads_of_comparison hrun).suffix.trans hcs)
    · split at h
      · exact absurd h (by simp)
      · obtain rfl := Option.some.inj h
        refine turn_after ?_
        rintro ⟨running, rest⟩ c' hrun
        exact .onward ((routineCall_suffix hrun).trans hcs)
    · obtain rfl := Option.some.inj h
      exact turn_enter fun body hbody =>
        .enter (f := ⟨block, cs, .test⟩) hbody (.inr (.inl rfl))
    · obtain rfl := Option.some.inj h
      exact turn_enter fun body hbody =>
        .enter (f := ⟨block, cs, .loopTest 0⟩) hbody (.inr (.inr rfl))
    · exact Option.some.inj h ▸ .onward hcs
    · exact Option.some.inj h ▸ .onward hcs
    · obtain rfl := Option.some.inj h
      exact turn_after fun rest c' hrun => .onward ((simple_suffix hrun).trans hcs)

/-- The turns of a search at its next address. -/
theorem turn_seek (seek : Seek) (c : Context) : Turn (.search seek) (Stage.seek seek c).spot := by
  unfold Stage.seek
  split
  · exact .stop
  · rename_i count hcount
    have hturn := Turn.seek seek count
    unfold unbracketed at hturn
    dsimp only
    split
    · rename_i body hopen
      rw [hopen] at hturn
      exact hturn
    · rename_i hopen
      rw [hopen] at hturn
      exact hturn

/-- The turns of a search behind its test. -/
theorem turn_tested (seek : Seek) (outcome : Outcome) (rest : List Char) (c : Context) :
    Turn (.text (.test seek) rest false) (tested seek outcome rest c).spot := by
  unfold tested
  split
  · rename_i htrue
    split
    · rename_i action haction
      exact .act (Bool.and_eq_true_iff.1 htrue).1
        ((open_suffix haction).trans (Source.skipLayout_suffix rest))
    · exact .found true (.inl rfl)
  · exact .found _ (.inl rfl)

/-- **Every turn is of one of the kinds.** -/
theorem turn_of_next (h : s.next setting = some t) : Turn s.spot t.spot := by
  cases s with
  | reading stack block rest c =>
    cases rest with
    | nil =>
      obtain rfl := Option.some.inj h
      split
      · exact .stop
      · exact .onward (List.suffix_refl _)
    | cons char cs =>
      rw [next] at h
      split at h
      · exact Option.some.inj h ▸ .onward (Source.reads_skipNewline _).suffix
      · split at h
        · rename_i hpercent
          exact hpercent ▸ turn_atConstruct h
        · exact Option.some.inj h ▸ .onward (List.suffix_cons char cs)
  | leaving stack block construct signal rest c =>
    obtain rfl := Option.some.inj h
    split
    · exact turn_read fun rest' hskip =>
        .onward (Source.suffix_of_two (Source.skipToClose_suffix hskip))
    · exact .onward (List.suffix_refl _)
  | beginning stack f body c => exact Option.some.inj h ▸ .onward (List.suffix_refl _)
  | returned stack outcome rest c =>
    cases stack with
    | program => exact Option.some.inj h ▸ .stop
    | test seek => exact Option.some.inj h ▸ turn_tested seek outcome rest c
    | action seek => exact Option.some.inj h ▸ .found true (.inr rfl)
    | push f stack => exact Option.some.inj h ▸ turn_behind stack f outcome rest c
  | seeking seek c => exact Option.some.inj h ▸ turn_seek seek c
  | done verdict c => exact absurd h (by simp [next])
  | failed kind construct c => exact absurd h (by simp [next])

end Stage

/-! ### Blocks around the text at hand -/

/-- What is left of the script lies behind each construct at which a block waits. -/
def Stack.Within (program : List Char) : Stack → List Char → Prop
  | .program, rest => rest <:+ program
  | test seek, rest => seek.text <:+ program ∧ rest <:+ unbracketed seek.text
  | action seek, rest =>
    seek.text <:+ program ∧ ∃ body, '%' :: '(' :: body <:+ program ∧ rest <:+ body
  | push f stack, rest => rest <:+ f.text ∧ stack.Within program f.construct

namespace Stack.Within

variable {program rest rest' : List Char} {stack : Stack}

theorem mono (h : stack.Within program rest) (hrest : rest' <:+ rest) :
    stack.Within program rest' := by
  cases stack with
  | program => exact hrest.trans h
  | test seek => exact ⟨h.1, hrest.trans h.2⟩
  | action seek =>
    obtain ⟨htext, body, hbody, h⟩ := h
    exact ⟨htext, body, hbody, hrest.trans h⟩
  | push f stack => exact ⟨hrest.trans h.1, h.2⟩

theorem suffix (h : stack.Within program rest) : rest <:+ program := by
  induction stack generalizing rest with
  | program => exact h
  | test seek => exact h.2.trans ((unbracketed_suffix _).trans h.1)
  | action seek =>
    obtain ⟨-, body, hbody, h⟩ := h
    exact h.trans (Source.suffix_of_two hbody)
  | push f stack ih => exact h.1.trans (Source.suffix_of_two (ih h.2))

/-- **Each block around the text at hand takes two characters of the program.** -/
theorem depth_le (h : stack.Within program rest) :
    2 * stack.depth + rest.length ≤ program.length := by
  induction stack generalizing rest with
  | program =>
    have hrest : rest.length ≤ program.length := h.length_le
    simpa only [depth, Nat.mul_zero, Nat.zero_add] using hrest
  | test seek =>
    have htext := h.1.length_le
    have hrest := h.2.length_le
    unfold depth
    unfold unbracketed at hrest
    cases hopen : open? seek.text with
    | none =>
      simp only [hopen, Option.getD_none, Option.isSome_none, Bool.false_eq_true, if_false] at *
      omega
    | some body =>
      have hbody := Source.length_add_two (Stage.open_suffix hopen)
      simp only [hopen, Option.getD_some, Option.isSome_some, if_true] at *
      omega
  | action seek =>
    obtain ⟨-, body, hbody, hrest⟩ := h
    have hbody := Source.length_add_two hbody
    have hrest := hrest.length_le
    simp only [depth]
    omega
  | push f stack ih =>
    have hrest := h.1.length_le
    have hconstruct : f.construct.length = f.text.length + 2 := rfl
    have hstack := ih h.2
    simp only [depth]
    omega

end Stack.Within

/-- Where runs of a program stand. -/
def Spot.Within (program : List Char) : Spot → Prop
  | text stack rest _ => stack.Within program rest
  | search seek => seek.text <:+ program
  | ended => True

/-- A turn keeps to the program. -/
theorem Turn.within {program : List Char} {spot spot' : Spot} (h : Turn spot spot')
    (hspot : spot.Within program) : spot'.Within program := by
  cases h with
  | stop => trivial
  | onward h => exact Stack.Within.mono hspot h
  | enter h _ => exact ⟨h, hspot⟩
  | @leave stack f rest rest' h =>
    have hrest : rest' <:+ f.construct :=
      (h.trans hspot.1).trans ((List.suffix_cons f.purpose.tag _).trans (List.suffix_cons '%' _))
    exact hspot.2.mono hrest
  | branch h hbranch => rcases hbranch with rfl | rfl <;> exact ⟨h.trans hspot.1, hspot.2⟩
  | round h _ => exact ⟨h.trans hspot.1, hspot.2⟩
  | back h => exact ⟨Source.suffix_of_two (Source.expectOpen_suffix h), hspot.2⟩
  | act _ h =>
    obtain ⟨htext, hrest⟩ := hspot
    exact ⟨htext, _, h.trans (hrest.trans ((unbracketed_suffix _).trans htext)),
      List.suffix_refl _⟩
  | found found h =>
    rcases h with rfl | rfl
    · exact hspot.1
    · exact hspot.1
  | seek seek count => exact ⟨hspot, List.suffix_refl _⟩

namespace Stage

variable {setting : Setting} {program : List Char} {s t t' : Stage} {path path' : List Stage}

/-- A run keeps to the program. -/
theorem Turns.within (h : Turns setting s path t) (hs : s.spot.Within program) :
    t.spot.Within program := by
  induction h with
  | refl s => exact hs
  | head turn _ ih => exact ih ((turn_of_next turn).within hs)

theorem start_within (program : String) (c : Context) :
    (start program c).spot.Within program.toList :=
  (Source.reads_skipNewline _).suffix

theorem startPattern_within (program : String) (c : Context) :
    (startPattern program c).spot.Within program.toList :=
  (List.dropWhile_suffix _).trans (Source.skipLayout_suffix _)

theorem depth_le_of_within {spot : Spot} (h : spot.Within program) :
    2 * spot.depth ≤ program.length := by
  cases spot with
  | text stack rest begins => exact Nat.le_of_add_right_le h.depth_le
  | search seek => exact Nat.zero_le _
  | ended => exact Nat.zero_le _

/-- A program without the tag of calls never stands at a call that never returns. -/
theorem not_hangs_of_not_mem (htag : 'P' ∉ program) (hs : s.spot.Within program)
    (h : Reaches setting s t) : ¬Hangs setting t := by
  obtain ⟨path, hpath⟩ := h
  rintro ⟨_⟩
  exact htag ((hpath.within hs).suffix.subset (by simp))

end Stage

/-! ### Loops go back to their own tests -/

/-- A run has stood at each construct at which a block waits, with the same blocks around it. -/
def Stack.Entered (path : List Stage) : Stack → Prop
  | push f stack => (∃ s ∈ path, s.spot = .text stack f.construct false) ∧ stack.Entered path
  | _ => True

/-- The blocks around have been entered. -/
def Spot.Entered (path : List Stage) : Spot → Prop
  | text stack _ _ => stack.Entered path
  | search _ | ended => True

theorem Stack.Entered.mono {path path' : List Stage} {stack : Stack} (h : stack.Entered path)
    (hpath : path ⊆ path') : stack.Entered path' := by
  induction stack with
  | push f stack ih =>
    obtain ⟨⟨s, hs, hspot⟩, h⟩ := h
    exact ⟨⟨s, hpath hs, hspot⟩, ih h⟩
  | _ => trivial

/-- A turn enters no block but at its construct. -/
theorem Turn.entered {path : List Stage} {s : Stage} {spot : Spot} (h : Turn s.spot spot)
    (hs : s ∈ path) (hspot : s.spot.Entered path) : spot.Entered path := by
  generalize hfrom : s.spot = source at h hspot
  cases h with
  | stop => trivial
  | onward h => exact hspot
  | enter h _ => exact ⟨⟨s, hs, hfrom⟩, hspot⟩
  | leave h => exact hspot.2
  | branch h hbranch => rcases hbranch with rfl | rfl <;> exact hspot
  | round h _ => exact hspot
  | back h => exact hspot
  | act _ h => trivial
  | found _ h => trivial
  | seek seek count => trivial

/-- A loop goes back from its body to its own test: a run has stood at the loop, with the same
blocks around it. -/
inductive GoesBack (path : List Stage) : Spot → Spot → Prop
  | loop {stack : Stack} {block : Block} {text rest test : List Char} {rounds : Nat} {s : Stage}
      (hs : s ∈ path) (hloop : s.spot = .text stack ('%' :: 'L' :: text) false)
      (htest : expectOpen text = .ok test) :
      GoesBack path (.text (.push ⟨block, text, .loopBody rounds⟩ stack) rest false)
        (.text (.push ⟨block, text, .loopTest rounds⟩ stack) test false)

/-- **Turns move forward in the script**, unless a loop goes back to its test. -/
theorem Turn.forward {path : List Stage} {stack stack' : Stack} {rest rest' : List Char}
    {begins begins' : Bool} (h : Turn (.text stack rest begins) (.text stack' rest' begins'))
    (hentered : stack.Entered path) :
    rest' <:+ rest ∨ GoesBack path (.text stack rest begins) (.text stack' rest' begins') := by
  cases h with
  | onward h => exact .inl h
  | @enter _ f _ h _ =>
    exact .inl ((h.trans (List.suffix_cons f.purpose.tag f.text)).trans (List.suffix_cons '%' _))
  | leave h => exact .inl h
  | branch h _ => exact .inl h
  | round h _ => exact .inl h
  | back h =>
    obtain ⟨⟨s, hs, hspot⟩, -⟩ := hentered
    exact .inr (.loop hs hspot h)
  | act _ h => exact .inl (Source.suffix_of_two h)

/-- A run enters no block but at its construct. -/
theorem Stage.Turns.entered {setting : Setting} {s t : Stage} {before path : List Stage}
    (h : Turns setting s path t) (hs : s.spot.Entered before) :
    t.spot.Entered (before ++ path) := by
  induction h generalizing before with
  | refl s =>
    rw [List.append_nil]
    exact hs
  | @head s s' t path turn rest ih =>
    have hsub : before ⊆ before ++ [s] := List.subset_append_left _ _
    have hmono : s.spot.Entered (before ++ [s]) := by
      cases hspot : s.spot with
      | text stack rest begins =>
        rw [hspot] at hs
        exact Stack.Entered.mono hs hsub
      | search seek => trivial
      | ended => trivial
    have hs' := ih ((turn_of_next turn).entered (by simp) hmono)
    rwa [List.append_assoc] at hs'

/-! ### Rounds of a loop -/

/-- A stack is that of a loop that has begun a number of rounds, with what waits for it. -/
inductive Stack.InLoop (outer : Stack) (rounds : Nat) : Stack → Prop
  | here {f : Frame} (h : f.purpose = .loopTest rounds ∨ f.purpose = .loopBody rounds) :
      InLoop outer rounds (.push f outer)
  | push {f : Frame} {stack : Stack} (h : InLoop outer rounds stack) :
      InLoop outer rounds (.push f stack)

theorem Stack.InLoop.depth_lt {outer stack : Stack} {rounds : Nat}
    (h : InLoop outer rounds stack) : outer.depth < stack.depth := by
  induction h with
  | here h => exact Nat.lt_succ_self _
  | push h ih => exact Nat.lt_succ_of_lt ih

/-- Where a run stands in a loop that has begun a number of rounds, as many as it may at most. -/
def Spot.InLoop (outer : Stack) (rounds : Nat) : Spot → Prop
  | text stack _ _ => Stack.InLoop outer rounds stack ∧ rounds ≤ maxRounds
  | search _ | ended => False

theorem Spot.InLoop.le {outer : Stack} {rounds : Nat} {spot : Spot}
    (h : spot.InLoop outer rounds) : rounds ≤ maxRounds := by
  cases spot with
  | text stack rest begins => exact h.2
  | search seek => exact h.elim
  | ended => exact h.elim

/-- **A turn inside a loop keeps count of its rounds.** -/
theorem Turn.inLoop {outer : Stack} {rounds : Nat} {spot spot' : Spot} (h : Turn spot spot')
    (hspot : spot.InLoop outer rounds) (hdepth : outer.depth < spot'.depth) :
    spot'.InLoop outer (rounds + (spot'.beginsAt (outer.depth + 1)).toNat) := by
  cases h with
  | stop => exact absurd hdepth (Nat.not_lt_zero _)
  | onward h => exact hspot
  | enter h _ => exact ⟨.push hspot.1, hspot.2⟩
  | leave h =>
    obtain ⟨hstack, hrounds⟩ := hspot
    cases hstack with
    | here _ => exact absurd hdepth (Nat.lt_irrefl _)
    | push hstack => exact ⟨hstack, hrounds⟩
  | branch h _ =>
    obtain ⟨hstack, hrounds⟩ := hspot
    cases hstack with
    | here hloop => simp at hloop
    | push hstack => exact ⟨.push hstack, hrounds⟩
  | @round stack block text rest rest' begun h hbegun =>
    obtain ⟨hstack, hrounds⟩ := hspot
    cases hstack with
    | here hloop =>
      obtain rfl : begun = rounds := by simpa using hloop
      have hbegins : Spot.beginsAt (outer.depth + 1)
          (.text (.push ⟨block, text, .loopBody (begun + 1)⟩ outer) rest' true) = true := by
        simp [Spot.beginsAt, Stack.depth]
      rw [hbegins]
      exact ⟨.here (.inr rfl), hbegun⟩
    | push hstack =>
      have hinner : stack.depth ≠ outer.depth := Nat.ne_of_gt hstack.depth_lt
      have hbegins : Spot.beginsAt (outer.depth + 1)
          (.text (.push ⟨block, text, .loopBody (begun + 1)⟩ stack) rest' true) = false := by
        simp [Spot.beginsAt, Stack.depth, hinner]
      rw [hbegins]
      exact ⟨.push hstack, hrounds⟩
  | @back stack block text rest test begun h =>
    obtain ⟨hstack, hrounds⟩ := hspot
    cases hstack with
    | here hloop =>
      obtain rfl : begun = rounds := by simpa using hloop
      exact ⟨.here (.inl rfl), hrounds⟩
    | push hstack => exact ⟨.push hstack, hrounds⟩
  | act _ _ => nomatch hspot.1
  | found _ h =>
    rcases h with rfl | rfl
    · nomatch hspot.1
    · nomatch hspot.1
  | seek _ _ => exact hspot.elim

/-- The first turn of a loop. -/
theorem Turn.inLoop_first {outer : Stack} {text : List Char} {spot : Spot}
    (h : Turn (.text outer ('%' :: 'L' :: text) false) spot) (hdepth : outer.depth < spot.depth) :
    spot.InLoop outer (spot.beginsAt (outer.depth + 1)).toNat := by
  generalize hrest : '%' :: 'L' :: text = rest at h
  cases h with
  | stop => exact absurd hdepth (Nat.not_lt_zero _)
  | onward h => exact absurd hdepth (Nat.lt_irrefl _)
  | @enter _ f _ h hfirst =>
    have htag : f.purpose.tag = 'L' := by
      simp only [Frame.construct, List.cons.injEq] at hrest
      exact hrest.2.1.symm
    have hloop : f.purpose = .loopTest 0 := by
      rcases hfirst with hfirst | hfirst | hfirst
      · simp [hfirst, Purpose.tag] at htag
      · simp [hfirst, Purpose.tag] at htag
      · exact hfirst
    exact ⟨.here (.inl hloop), Nat.zero_le _⟩
  | @leave stack f _ _ h =>
    have hlower : stack.depth < (Stack.push f stack).depth := Nat.lt_succ_self _
    exact absurd hdepth (Nat.lt_asymm hlower)
  | branch _ _ => exact absurd hdepth (Nat.lt_irrefl _)
  | round _ _ => exact absurd hdepth (Nat.lt_irrefl _)
  | back _ => exact absurd hdepth (Nat.lt_irrefl _)
  | act hopen h =>
    simp only [Stack.depth, Spot.depth, hopen, if_true] at hdepth
    exact absurd hdepth (Nat.lt_irrefl _)
  | found _ _ => exact absurd hdepth (Nat.not_lt_zero _)

namespace Stage

variable {setting : Setting} {program : List Char} {s t t' : Stage} {path path' : List Stage}

/-- The rounds that a loop begins from some stage inside it on. -/
theorem Turns.countP_rounds_add_le {outer : Stack} {rounds : Nat} (h : Turns setting s path t)
    (hs : s.spot.InLoop outer rounds) (hdepth : ∀ u ∈ path, outer.depth < u.spot.depth) :
    rounds + path.countP (·.spot.beginsAt (outer.depth + 1)) ≤
      maxRounds + (s.spot.beginsAt (outer.depth + 1)).toNat := by
  induction h generalizing rounds with
  | refl s => exact Nat.le_trans hs.le (Nat.le_add_right _ _)
  | @head s s' t path turn rest ih =>
    have hcons : (s :: path).countP (·.spot.beginsAt (outer.depth + 1)) =
        path.countP (·.spot.beginsAt (outer.depth + 1)) +
          (s.spot.beginsAt (outer.depth + 1)).toNat := by
      rw [List.countP_cons]
      cases s.spot.beginsAt (outer.depth + 1) <;> rfl
    cases rest with
    | refl =>
      have hrounds := hs.le
      rw [List.countP_nil] at hcons
      omega
    | head turn' rest' =>
      have hdepth' := fun u hu => hdepth u (List.mem_cons_of_mem s hu)
      have hs' := (turn_of_next turn).inLoop hs (hdepth' s' List.mem_cons_self)
      have hcount := ih hs' hdepth'
      omega

/-- **A loop begins no more rounds than it may.** The stages are those of one execution of the loop:
they begin at its tag and stay inside it. -/
theorem Turns.countP_rounds_le {stack : Stack} {block : Block} {text : List Char} {c : Context}
    (h : Turns setting (.reading stack block ('%' :: 'L' :: text) c) path t)
    (hdepth : ∀ u ∈ path.tail, stack.depth < u.spot.depth) :
    path.countP (·.spot.beginsAt (stack.depth + 1)) ≤ maxRounds := by
  cases h with
  | refl => exact Nat.zero_le _
  | @head _ s _ path turn rest =>
    have hfirst : Spot.beginsAt (stack.depth + 1)
        (Stage.reading stack block ('%' :: 'L' :: text) c).spot = false := rfl
    rw [List.countP_cons, hfirst]
    cases rest with
    | refl => exact Nat.zero_le _
    | head turn' rest' =>
      have hs := (turn_of_next turn).inLoop_first (hdepth s List.mem_cons_self)
      have hcount := (Turns.head turn' rest').countP_rounds_add_le hs hdepth
      rw [Nat.add_comm] at hcount
      exact Nat.le_of_add_le_add_right hcount

/-! ### The end of a run -/

/-- The result of a run that stands at its end. -/
def result? (program : List Char) : Stage → Option (EStateM.Result Error Context Verdict)
  | done verdict c => some (.ok verdict c)
  | failed kind construct c => some (.error (locate program construct kind c.currentAddress) c)
  | _ => none

theorem next_of_result {r : EStateM.Result Error Context Verdict}
    (h : t.result? program = some r) : t.next setting = none := by
  cases t with
  | done => rfl
  | failed => rfl
  | _ => exact absurd h (by simp [result?])

/-- The turns from a stage lead to a result, and none lead on from there. -/
def Terminates (setting : Setting) (program : List Char) (s : Stage)
    (r : EStateM.Result Error Context Verdict) : Prop :=
  ∃ path t, Turns setting s path t ∧ t.result? program = some r ∧
    ∀ path' t', Turns setting s path' t' → path' <+: path

/-- **Turns that lead to a result end there**, if they never stand at a call that never returns. -/
theorem Settles.terminates {α : Type} {verdict : α → Verdict} {x : Run α} {c : Context}
    (h : Settles setting program s (fun a c => .done (verdict a) c) (x c))
    (hreturns : ∀ t, Reaches setting s t → ¬Hangs setting t) :
    Terminates setting program s ((verdict <$> x) c) := by
  have hresult : ∃ t, Reaches setting s t ∧ t.result? program = some ((verdict <$> x) c) := by
    rw [map_eq_pure_bind, bind_apply]
    cases hx : x c with
    | ok a c' =>
      rw [hx] at h
      exact ⟨_, h, rfl⟩
    | error e c' =>
      rw [hx] at h
      obtain ⟨t, hreaches, hfails⟩ := h
      cases hfails with
      | failed kind construct => exact ⟨_, hreaches, rfl⟩
      | hangs hcall => exact absurd (.call hcall) (hreturns _ hreaches)
  obtain ⟨t, ⟨path, hpath⟩, ht⟩ := hresult
  refine ⟨path, t, hpath, ht, fun path' t' h' => ?_⟩
  obtain ⟨more, hmore, -⟩ := hpath.goesOn (next_of_result ht) h'
  exact ⟨more, hmore.symm⟩

end Stage

open Stage

/-- **Runs move forward and end.** Running a nested block fails or ends two characters on at least,
inside the program. Of all turns only that of a loop to its own test moves back. One execution of a
loop begins a bounded number of rounds. So every run of a program, over a data block or at the
addresses of a pattern block, has no more blocks around it than half the length of the program, and
if the routines that it calls return, it comes to the end with the result of the program. -/
theorem run_moves_forward (setting : Setting) (program : String) (c : Context) :
    (∀ steps p running outcome rest c c',
        block setting program.toList steps true running (program.toList.drop p) c =
            .ok (outcome, rest) c' →
          ∃ q, rest = program.toList.drop q ∧ p + 2 ≤ q ∧ q ≤ program.toList.length) ∧
      (∀ first path s t stack rest begins stack' rest' begins',
        first = start program c ∨ first = startPattern program c →
          Turns setting first path s → Stage.next setting s = some t →
            s.spot = .text stack rest begins → t.spot = .text stack' rest' begins' →
              rest' <:+ rest ∨ GoesBack path s.spot t.spot) ∧
      (∀ stack block text c path t,
        Turns setting (.reading stack block ('%' :: 'L' :: text) c) path t →
          (∀ u ∈ path.tail, stack.depth < u.spot.depth) →
            path.countP (·.spot.beginsAt (stack.depth + 1)) ≤ maxRounds) ∧
      (∀ t, Reaches setting (start program c) t ∨ Reaches setting (startPattern program c) t →
        2 * t.spot.depth ≤ program.toList.length) ∧
      ((∀ t, Reaches setting (start program c) t → ¬Hangs setting t) →
        Terminates setting program.toList (start program c)
          ((Verdict.outcome <$> run setting program) c)) ∧
      ((∀ t, Reaches setting (startPattern program c) t → ¬Hangs setting t) →
        Terminates setting program.toList (startPattern program c)
          ((Verdict.matches <$> runPattern setting program) c)) := by
  refine ⟨?_, ?_, ?_, ?_, (run_settles setting program c).terminates,
    (runPattern_settles setting program c).terminates⟩
  · intro steps p running outcome rest c c' hrun
    exact Source.exists_drop_of_suffix (block_suffix hrun)
  · intro first path s t stack rest begins stack' rest' begins' hfirst hpath hturn hs ht
    have hentered : first.spot.Entered [] := by rcases hfirst with rfl | rfl <;> trivial
    have hentered := hpath.entered hentered
    have hturn := turn_of_next hturn
    rw [hs, ht] at hturn ⊢
    rw [hs] at hentered
    exact hturn.forward hentered
  · intro stack block text c path t hturns hdepth
    exact hturns.countP_rounds_le hdepth
  · rintro t (⟨path, hpath⟩ | ⟨path, hpath⟩)
    · exact depth_le_of_within (hpath.within (start_within program c))
    · exact depth_le_of_within (hpath.within (startPattern_within program c))

/-- A loop over the bytes of a block, which ends with its test. -/
theorem run_moves_forward_loopSample :
    let program := "%L%(%?LT8F8E%)%(%B2F,%)"
    let c := Context.start byteSample (.ofList []) ∅ 0x8000 0x8001
    (∀ t, Reaches byteSample (start program c) t → ¬Hangs byteSample t) ∧
      Terminates byteSample program.toList (start program c)
        ((Verdict.outcome <$> run byteSample program) c) := by
  intro program c
  have htag : 'P' ∉ program.toList := by decide
  have hreturns : ∀ t, Reaches byteSample (start program c) t → ¬Hangs byteSample t :=
    fun t => not_hangs_of_not_mem htag (start_within program c)
  obtain ⟨-, -, -, -, hends, -⟩ := run_moves_forward byteSample program c
  exact ⟨hreturns, hends hreturns⟩

end Script
end Disassembly
