/-
# Runs that end well, rule by rule

A block runs with a bound on its steps that is never used up: any number above the length of its text
will do. `Ends` says that a block ends well with every such number, so its rules speak of the text
and the context alone. Each construct has a rule that puts it in front of a run that ends well.
A loop has two: it ends where its test is false (`LoopEnds.done`), and a round in front of it takes
one of the rounds it may have (`LoopEnds.round`).
-/

import Disassembly.Proofs.Script.Forward

namespace Disassembly
namespace Script

variable {setting : Setting} {program cs cs' rest : List Char} {isNested : Bool}
  {running running' : Running} {c c₁ c' : Context} {outcome : Outcome}

/-- A block ends well with any number of steps above the length of its text. -/
def Ends (setting : Setting) (program : List Char) (isNested : Bool) (running : Running)
    (cs : List Char) (c : Context) (outcome : Outcome) (rest : List Char) (c' : Context) : Prop :=
  ∀ steps, cs.length < steps →
    block setting program steps isNested running cs c = .ok (outcome, rest) c'

/-- A loop ends well, with any number of steps above the length of its text for the blocks in it. -/
def LoopEnds (setting : Setting) (program : List Char) (rounds : Nat) (test : List Char) (c : Context)
    (rest : List Char) (c' : Context) : Prop :=
  ∀ steps, test.length < steps →
    loop (block setting program steps true {}) test rounds c = .ok rest c'

/-- The program ends where its text ends. -/
theorem ends_nil (setting : Setting) (program : List Char) (running : Running) (c : Context) :
    Ends setting program false running [] c ⟨running.truth, .onward⟩ [] c
  | _ + 1, _ => rfl

/-- A nested block ends at its bracket. -/
theorem ends_close (setting : Setting) (program : List Char) (running : Running) (cs : List Char)
    (c : Context) : Ends setting program true running ('%' :: ')' :: cs) c
      ⟨running.truth, .onward⟩ cs c
  | steps + 1, _ => by
    rw [block_construct]
    rfl

/-- A character that stands for itself is written. -/
theorem Ends.literal {ch : Char} (hbreak : Source.isBreak ch = false) (hpercent : ch ≠ '%')
    (h : Ends setting program isNested running cs
      (c.pushChar setting (setting.charset.translate ch)) outcome rest c') :
    Ends setting program isNested running (ch :: cs) c outcome rest c'
  | steps + 1, hsteps => by
    rw [block, hbreak]
    simp only [Bool.false_eq_true, if_false, hpercent]
    rw [bind_ok (modify_apply _ _)]
    exact h steps (Nat.lt_of_succ_lt_succ hsteps)

/-- A line break is skipped with the layout behind it. -/
theorem Ends.layout {ch : Char} (hbreak : Source.isBreak ch = true)
    (h : Ends setting program isNested running (Source.skipNewline (ch :: cs)) c outcome rest c') :
    Ends setting program isNested running (ch :: cs) c outcome rest c'
  | steps + 1, hsteps => by
    have hlength := Source.length_skipNewline hbreak cs
    rw [Script.block, hbreak, if_pos rfl]
    exact h steps (Nat.lt_of_le_of_lt hlength (Nat.lt_of_succ_lt_succ hsteps))

/-- A construct that goes on is followed by the rest of its block. -/
theorem Ends.construct
    (hconstruct : ∀ steps, cs.length < steps →
      construct setting (block setting program steps true {}) isNested running cs c =
        .ok (.onward running', cs') c₁) (hlength : cs'.length ≤ cs.length)
    (h : Ends setting program isNested running' cs' c₁ outcome rest c') :
    Ends setting program isNested running ('%' :: cs) c outcome rest c'
  | steps + 1, hsteps => by
    have hsteps : cs.length < steps := Nat.lt_of_succ_lt_succ hsteps
    rw [block_construct, located_eq_ok.2 (hconstruct steps hsteps)]
    exact h steps (Nat.lt_of_le_of_lt hlength hsteps)

/-- A simple construct is followed by the rest of its block. -/
theorem Ends.simple {tag : Char} (htag : tag ∉ ['(', ')', '?', 'P', 'I', 'L', 'Y', 'Z'])
    (hsimple : simple setting tag cs c = .ok cs' c₁) (hlength : cs'.length ≤ cs.length)
    (h : Ends setting program isNested running cs' c₁ outcome rest c') :
    Ends setting program isNested running ('%' :: tag :: cs) c outcome rest c' := by
  refine Ends.construct (fun steps _ => ?_) (Nat.le_succ_of_le hlength) h
  generalize block setting program steps true {} = inner
  have hconstruct : Script.construct setting inner isNested running (tag :: cs) =
      (Part.own (Script.simple setting tag cs) >>= fun cs => pure (.onward running, cs)) := by
    simp only [Script.construct]
    split <;> first | rfl | exact absurd htag (by decide)
  rw [hconstruct, bind_ok (own_eq_ok.2 hsimple), pure_apply]

/-- A comparison of two values that are there is a result, unless the truth value is decided. -/
theorem comparison_eq {running : Running} {first : Char} {r : Relation} {a b : Operand}
    {x y : UInt16} {cs' : List Char} (hfirst : first ≠ 'B')
    (hrelation : relation first cs = .ok (r, a, b, cs'))
    (ha : a.evaluate setting a.naturalWidth c = .ok x c)
    (hb : b.evaluate setting b.naturalWidth c = .ok y c) :
    comparison setting running (first :: cs) c =
      .ok (if running.decided then running else running.fold (r.holds x y), cs') c := by
  rw [comparison]
  simp only [Source.next, ofExcept_ok]
  rw [bind_ok (pure_apply _ _)]
  simp only [hfirst, if_false, hrelation, ofExcept_ok]
  rw [bind_ok (pure_apply _ _)]
  cases running.decided with
  | true => rfl
  | false =>
    simp only [Bool.false_eq_true, if_false]
    rw [bind_ok ha, bind_ok hb, pure_apply]

/-- A comparison is followed by the rest of its block. -/
theorem Ends.comparison (hcompare : comparison setting running cs c = .ok (running', cs') c₁)
    (hlength : cs'.length ≤ cs.length)
    (h : Ends setting program isNested running' cs' c₁ outcome rest c') :
    Ends setting program isNested running ('%' :: '?' :: cs) c outcome rest c' := by
  refine Ends.construct (fun steps _ => ?_) (Nat.le_succ_of_le hlength) h
  simp only [Script.construct]
  rw [bind_ok (own_eq_ok.2 hcompare), pure_apply]

/-- A routine call takes in the result of the routine, if there is one. -/
theorem call_of_routine {name arguments : String} {result : Option Bool}
    (hcall : Source.call cs = .ok (name, arguments, cs'))
    (hroutine : Routine.call setting name arguments c = .ok result c') :
    call setting running cs c =
      .ok (match result with
        | some truth => running.fold truth
        | none => running, cs') c' := by
  rw [call, hcall]
  simp only [ofExcept_ok, pure_bind]
  rw [bind_ok hroutine]
  cases result <;> rfl

/-- A routine call is followed by the rest of its block. -/
theorem Ends.call (hcall : call setting running cs c = .ok (running', cs') c₁)
    (hlength : cs'.length ≤ cs.length)
    (h : Ends setting program isNested running' cs' c₁ outcome rest c') :
    Ends setting program isNested running ('%' :: 'P' :: cs) c outcome rest c' := by
  refine Ends.construct (fun steps _ => ?_) (Nat.le_succ_of_le hlength) h
  simp only [Script.construct]
  rw [bind_ok (own_eq_ok.2 hcall), pure_apply]

/-- A block inside a block is a result, and is followed by the rest of the block around it. -/
theorem Ends.block {within : Outcome} (hsignal : within.signal = .onward)
    (hinner : Ends setting program true {} cs c within cs' c₁)
    (h : Ends setting program isNested (running.fold within.truth) cs' c₁ outcome rest c') :
    Ends setting program isNested running ('%' :: '(' :: cs) c outcome rest c' := by
  have hread := readsBlocks_block setting program _ (hinner _ (Nat.lt_succ_self _))
  have hlength := (Source.suffix_of_two hread).length_le
  refine Ends.construct (fun steps hsteps => ?_) (Nat.le_succ_of_le hlength) h
  simp only [Script.construct]
  rw [bind_ok (inner_eq_ok.2 (hinner steps (Nat.lt_of_succ_lt hsteps))), pure_apply, hsignal]
  rfl

/-- A loop is followed by the rest of its block. -/
theorem Ends.loop (hloop : LoopEnds setting program maxRounds cs c cs' c₁)
    (hlength : cs'.length ≤ cs.length)
    (h : Ends setting program isNested running cs' c₁ outcome rest c') :
    Ends setting program isNested running ('%' :: 'L' :: cs) c outcome rest c' := by
  refine Ends.construct (fun steps hsteps => ?_) (Nat.le_succ_of_le hlength) h
  simp only [Script.construct]
  rw [bind_ok (hloop steps (Nat.lt_of_succ_lt hsteps)), pure_apply]

section Loops

variable {test testText bodyText body : List Char} {rounds : Nat}

/-- A piece of source that is read changes nothing. -/
theorem source_ok {α : Type} (a : α) (c : Context) : Part.source (.ok a) c = .ok a c := rfl

/-- The test of a loop is a block. -/
theorem nested_of_ends (hopen : Source.expectOpen test = .ok testText)
    (hlength : testText.length ≤ test.length)
    (htest : Ends setting program true {} testText c outcome bodyText c₁) {steps : Nat}
    (hsteps : test.length < steps) :
    nested (block setting program steps true {}) test c = .ok (outcome, bodyText) c₁ := by
  rw [nested, hopen]
  exact inner_eq_ok.2 (htest steps (Nat.lt_of_le_of_lt hlength hsteps))

/-- **A loop ends where its test is false**, behind its body. -/
theorem LoopEnds.done (hopen : Source.expectOpen test = .ok testText)
    (hlength : testText.length ≤ test.length)
    (htest : Ends setting program true {} testText c outcome bodyText c₁)
    (hfalse : outcome.truth = false) (hbody : Source.expectOpen bodyText = .ok body)
    (hskip : Source.skipToClose body = .ok rest) :
    LoopEnds setting program rounds test c rest c₁ := by
  intro steps hsteps
  have hrun : loopTest (block setting program steps true {}) test c = .ok (false, rest) c₁ := by
    rw [loopTest, bind_ok (nested_of_ends hopen hlength htest hsteps)]
    simp only [hbody, hfalse]
    rw [bind_ok (source_ok body c₁), if_neg Bool.false_ne_true, hskip]
    rfl
  cases rounds with
  | zero => rw [Script.loop, bind_ok hrun]; rfl
  | succ rounds => rw [Script.loop, bind_ok hrun]; rfl

/-- **Where its test is true a loop runs its body and goes on**, with one round less. -/
theorem LoopEnds.round {c₂ : Context} {outcome' : Outcome} {rest' : List Char}
    (hopen : Source.expectOpen test = .ok testText) (hlength : testText.length ≤ test.length)
    (htest : Ends setting program true {} testText c outcome bodyText c₁)
    (htrue : outcome.truth = true) (hbody : Source.expectOpen bodyText = .ok body)
    (hlength' : body.length ≤ test.length)
    (hround : Ends setting program true {} body c₁ outcome' rest' c₂)
    (hsignal : outcome'.signal ≠ .leave) (h : LoopEnds setting program rounds test c₂ rest c') :
    LoopEnds setting program (rounds + 1) test c rest c' := by
  intro steps hsteps
  have hrun : loopTest (block setting program steps true {}) test c = .ok (true, body) c₁ := by
    rw [loopTest, bind_ok (nested_of_ends hopen hlength htest hsteps)]
    simp only [hbody, htrue]
    rfl
  have hround := inner_eq_ok.2 (hround steps (Nat.lt_of_le_of_lt hlength' hsteps))
  rw [Script.loop, bind_ok hrun]
  simp only [if_true]
  rw [bind_ok hround]
  simp only [hsignal, if_false]
  exact h steps hsteps

end Loops

/-- A program that ends well is run. -/
theorem run_of_ends {program : String} (rest : List Char)
    (h : Ends setting program.toList false {} (Source.skipNewline program.toList) c outcome rest c') :
    run setting program c = .ok outcome c' := by
  have hlength : (Source.skipNewline program.toList).length < program.toList.length + 1 :=
    Nat.lt_succ_of_le ((List.dropWhile_sublist _).trans (List.dropWhile_sublist _)).length_le
  rw [run]
  simp only [runBlock]
  rw [bind_ok (h _ hlength), pure_apply]

end Script
end Disassembly
