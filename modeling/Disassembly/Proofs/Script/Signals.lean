/-
# Leaving a loop, and going on with its next round

`%Y` and `%Z` take effect across any number of blocks: the rest of each block around them is skipped,
and so is the block of a `%J` behind it, up to the body of the innermost loop (`ComesTo`). Nothing in
between is run, so the loop ends, or goes on with its next test, in the context of the construct
(`loop_signal`), and the block around the loop learns nothing of it.

What is skipped is skipped by the scanner of brackets. The scanner finds the end of the body unless
a text is taken as it stands behind the construct and holds a bracket (`loop_leaves_within_body`).
-/

import Disassembly.Disassemble
import Disassembly.Proofs.Script.Skipping

namespace Disassembly
namespace Script

open Source (isBreak skipNewline skipToClose skipToCloseAfter expectOpen)

/-- The constructs that end a block early, by their tags. -/
inductive Raises : Char → Signal → Prop
  | leave : Raises 'Y' .leave
  | again : Raises 'Z' .again

/-- **The run of a nested block comes to an early end**, at a construct with the rest `cs` behind it and
in the context `c`, inside so many further blocks: behind what is run before, in a block on the way, or
in the block of a conditional that is taken. -/
inductive ComesTo (setting : Setting) (program : List Char) (signal : Signal) (cs : List Char)
    (c : Context) : Nat → Nat → Running → List Char → Context → Prop
  | here {steps : Nat} {running : Running} {tag : Char} (hraises : Raises tag signal) :
      ComesTo setting program signal cs c (steps + 1) 0 running ('%' :: tag :: cs) c
  | layout {steps depth : Nat} {running : Running} {char : Char} {text : List Char} {c₁ : Context}
      (hbreak : isBreak char = true)
      (later : ComesTo setting program signal cs c steps depth running (skipNewline (char :: text))
        c₁) :
      ComesTo setting program signal cs c (steps + 1) depth running (char :: text) c₁
  | literal {steps depth : Nat} {running : Running} {char : Char} {text : List Char} {c₁ : Context}
      (hbreak : isBreak char = false) (hpercent : char ≠ '%')
      (later : ComesTo setting program signal cs c steps depth running text
        (c₁.pushChar setting (setting.charset.translate char))) :
      ComesTo setting program signal cs c (steps + 1) depth running (char :: text) c₁
  | onward {steps depth : Nat} {running running' : Running} {text text' : List Char}
      {c₁ c₂ : Context}
      (hstep : construct setting (block setting program steps true {}) true running text c₁ =
        .ok (.onward running', text') c₂)
      (later : ComesTo setting program signal cs c steps depth running' text' c₂) :
      ComesTo setting program signal cs c (steps + 1) depth running ('%' :: text) c₁
  | inBlock {steps depth : Nat} {running : Running} {body : List Char} {c₁ : Context}
      (within : ComesTo setting program signal cs c steps depth {} body c₁) :
      ComesTo setting program signal cs c (steps + 1) (depth + 1) running ('%' :: '(' :: body) c₁
  | inYes {steps depth : Nat} {running : Running} {text rest yes : List Char} {test : Outcome}
      {c₁ c₂ : Context}
      (htest : nested (block setting program steps true {}) text c₁ = .ok (test, rest) c₂)
      (htrue : test.truth = true) (hyes : expectOpen rest = .ok yes)
      (within : ComesTo setting program signal cs c steps depth {} yes c₂) :
      ComesTo setting program signal cs c (steps + 1) (depth + 1) running ('%' :: 'I' :: text) c₁
  | inNo {steps depth : Nat} {running : Running} {text rest yes rest' otherwise no : List Char}
      {test : Outcome} {c₁ c₂ : Context}
      (htest : nested (block setting program steps true {}) text c₁ = .ok (test, rest) c₂)
      (hfalse : test.truth = false) (hyes : expectOpen rest = .ok yes)
      (hskip : skipToClose yes = .ok rest') (helse : else? rest' = some otherwise)
      (hno : expectOpen otherwise = .ok no)
      (within : ComesTo setting program signal cs c steps depth {} no c₂) :
      ComesTo setting program signal cs c (steps + 1) (depth + 1) running ('%' :: 'I' :: text) c₁

/-- **A round of a loop begins** at its body in a context, with so many rounds left behind it. -/
inductive Begins (inner : Inner) (test : List Char) :
    Nat → Context → Nat → List Char → Context → Prop
  | first {rounds : Nat} {body : List Char} {c c₁ : Context}
      (htest : loopTest inner test c = .ok (true, body) c₁) :
      Begins inner test (rounds + 1) c rounds body c₁
  | later {rounds left : Nat} {body body' rest : List Char} {outcome : Outcome}
      {c c₁ c₂ c₃ : Context} (htest : loopTest inner test c = .ok (true, body) c₁)
      (hround : inner body c₁ = .ok (outcome, rest) c₂) (hgoOn : outcome.signal ≠ .leave)
      (onward : Begins inner test rounds c₂ left body' c₃) :
      Begins inner test (rounds + 1) c left body' c₃

variable {setting : Setting} {program cs rest : List Char} {signal : Signal} {steps depth : Nat}
  {running : Running} {outcome : Outcome} {c c' c₁ : Context}

/-! ### What ends early is skipped -/

/-- Skipping finds the place that the scanner finds. -/
theorem skipToClose_eq_ok : skipToClose cs = .ok rest ↔ skipToCloseAfter false 0 cs = some rest := by
  unfold skipToClose
  split
  · rename_i found hfound
    rw [hfound, Except.ok.injEq, Option.some.injEq]
  · rename_i hnone
    rw [hnone]
    exact ⟨fun h => absurd h (by simp), fun h => absurd h (by simp)⟩

/-- The end of an inner block, and then the end of the block around it. -/
theorem skipToCloseAfter_succ {rest' : List Char}
    (hinner : skipToCloseAfter false depth cs = some rest') (houter : skipToClose rest' = .ok rest) :
    skipToCloseAfter false (depth + 1) cs = some rest := by
  rw [Source.skipToCloseAfter_add false depth 0 cs, hinner, Option.bind_some]
  exact skipToClose_eq_ok.1 houter

/-- What ends a block early is a signal. -/
theorem Raises.ne_onward {tag : Char} (h : Raises tag signal) : signal ≠ .onward := by
  cases h with
  | leave => exact Signal.noConfusion
  | again => exact Signal.noConfusion

theorem ComesTo.ne_onward {text : List Char}
    (h : ComesTo setting program signal cs c steps depth running text c₁) : signal ≠ .onward := by
  induction h with
  | here hraises => exact hraises.ne_onward
  | layout _ _ ih => exact ih
  | literal _ _ _ ih => exact ih
  | onward _ _ ih => exact ih
  | inBlock _ ih => exact ih
  | inYes _ _ _ _ ih => exact ih
  | inNo _ _ _ _ _ _ _ ih => exact ih

/-- A construct that asks its nested block to end early. -/
theorem block_ends_early (running' : Running) {text rest' : List Char} {c₂ : Context}
    (hconstruct : construct setting (block setting program steps true {}) true running text c₁ =
      .ok (signal.flow running', rest') c₂) (hsignal : signal ≠ .onward)
    (hrun : block setting program (steps + 1) true running ('%' :: text) c₁ =
      .ok (outcome, rest) c') :
    outcome.signal = signal ∧ c' = c₂ ∧ skipToClose rest' = .ok rest := by
  rw [block_construct, located_eq_ok.2 hconstruct] at hrun
  cases signal with
  | onward => exact absurd rfl hsignal
  | leave =>
    obtain ⟨rfl, hskip, hc⟩ := endEarly_eq_ok hrun
    exact ⟨rfl, hc, hskip⟩
  | again =>
    obtain ⟨rfl, hskip, hc⟩ := endEarly_eq_ok hrun
    exact ⟨rfl, hc, hskip⟩

/-- The construct of a block that ends well ends well. -/
theorem exists_of_block_construct {text : List Char}
    (hrun : block setting program (steps + 1) true running ('%' :: text) c₁ =
      .ok (outcome, rest) c') :
    ∃ flow rest' c₂, construct setting (block setting program steps true {}) true running text c₁ =
      .ok (flow, rest') c₂ := by
  rw [block_construct] at hrun
  cases hflow : Part.located program ('%' :: text)
    (construct setting (block setting program steps true {}) true running text) c₁ with
  | ok r c₂ => exact ⟨r.1, r.2, c₂, located_eq_ok.1 hflow⟩
  | error e c₂ =>
    rw [hflow] at hrun
    exact absurd hrun (by simp)

/-- A conditional whose test is known has run the block that the test asks for. -/
theorem conditional_after_test {inner : Inner} {text rest' : List Char} {test : Outcome}
    {c₂ : Context} (htest : nested inner text c₁ = .ok (test, rest') c₂)
    (h : conditional inner text c₁ = .ok (signal, rest) c') :
    ∃ yes, expectOpen rest' = .ok yes ∧
      if test.truth then ∃ result behind, inner yes c₂ = .ok (result, behind) c' ∧
        signal = result.signal ∧ afterElse behind = .ok rest
      else ∃ behind, skipToClose yes = .ok behind ∧
        match else? behind with
        | some otherwise => ∃ no result, expectOpen otherwise = .ok no ∧
            inner no c₂ = .ok (result, rest) c' ∧ signal = result.signal
        | none => rest = behind ∧ signal = .onward ∧ c' = c₂ := by
  obtain ⟨body, truth, rest₁, c₃, yes, hopen, hinner, hyes, hbranch⟩ := conditional_eq_ok h
  obtain ⟨body', hopen', hinner'⟩ := nested_eq_ok htest
  obtain rfl := Except.ok.inj (hopen.symm.trans hopen')
  obtain ⟨rfl, rfl, rfl⟩ := ok_pair_inj (hinner.symm.trans hinner')
  exact ⟨yes, hyes, hbranch⟩

/-- **A nested block that comes to an early end has done nothing behind it**, and is over where the
scanner comes to, out of all the blocks in between. The induction is on the way there: each block
around the construct skips from where the block inside it ended. -/
theorem ComesTo.block_eq_ok {text : List Char}
    (h : ComesTo setting program signal cs c steps depth running text c₁)
    (hrun : block setting program steps true running text c₁ = .ok (outcome, rest) c') :
    outcome.signal = signal ∧ c' = c ∧ skipToCloseAfter false depth cs = some rest := by
  induction h generalizing outcome rest c' with
  | here hraises =>
    cases hraises with
    | leave =>
      obtain ⟨hsignal, hc, hskip⟩ := block_ends_early {} rfl Raises.leave.ne_onward hrun
      exact ⟨hsignal, hc, skipToClose_eq_ok.1 hskip⟩
    | again =>
      obtain ⟨hsignal, hc, hskip⟩ := block_ends_early {} rfl Raises.again.ne_onward hrun
      exact ⟨hsignal, hc, skipToClose_eq_ok.1 hskip⟩
  | layout hbreak later ih =>
    rw [block, hbreak, if_pos rfl] at hrun
    exact ih hrun
  | literal hbreak hpercent later ih =>
    rw [block, hbreak, if_neg Bool.false_ne_true, if_neg hpercent,
      bind_ok (modify_apply _ _)] at hrun
    exact ih hrun
  | onward hstep later ih =>
    rw [block_construct, located_eq_ok.2 hstep] at hrun
    exact ih hrun
  | inBlock within ih =>
    obtain ⟨flow, rest', c₂, hconstruct⟩ := exists_of_block_construct hrun
    obtain ⟨⟨result, behind⟩, c₃, hinner, hflow⟩ := bind_eq_ok hconstruct
    obtain ⟨rfl, rfl, rfl⟩ := ok_pair_inj hflow
    obtain ⟨rfl, rfl, hwithin⟩ := ih (inner_eq_ok.1 hinner)
    obtain ⟨hsignal, rfl, hskip⟩ := block_ends_early _ hconstruct within.ne_onward hrun
    exact ⟨hsignal, rfl, skipToCloseAfter_succ hwithin hskip⟩
  | inYes htest htrue hyes within ih =>
    obtain ⟨flow, rest', c₂, hconstruct⟩ := exists_of_block_construct hrun
    obtain ⟨⟨signal', behind⟩, c₃, hconditional, hflow⟩ := bind_eq_ok hconstruct
    obtain ⟨rfl, rfl, rfl⟩ := ok_pair_inj hflow
    obtain ⟨yes', hyes', hbranch⟩ := conditional_after_test htest hconditional
    obtain rfl := Except.ok.inj (hyes.symm.trans hyes')
    rw [htrue, if_pos rfl] at hbranch
    obtain ⟨result, rest'', hinner, rfl, hafter⟩ := hbranch
    obtain ⟨rfl, rfl, hwithin⟩ := ih hinner
    obtain ⟨hsignal, rfl, hskip⟩ := block_ends_early _ hconstruct within.ne_onward hrun
    -- The block of a `%J` that is not taken is passed by the scanner.
    rw [← (passes_of_afterElse hafter).skipToClose_eq] at hskip
    exact ⟨hsignal, rfl, skipToCloseAfter_succ hwithin hskip⟩
  | inNo htest hfalse hyes hskip helse hno within ih =>
    obtain ⟨flow, rest', c₂, hconstruct⟩ := exists_of_block_construct hrun
    obtain ⟨⟨signal', behind⟩, c₃, hconditional, hflow⟩ := bind_eq_ok hconstruct
    obtain ⟨rfl, rfl, rfl⟩ := ok_pair_inj hflow
    obtain ⟨yes', hyes', hbranch⟩ := conditional_after_test htest hconditional
    obtain rfl := Except.ok.inj (hyes.symm.trans hyes')
    rw [hfalse, if_neg Bool.false_ne_true] at hbranch
    obtain ⟨skipped, hskip', hbranch⟩ := hbranch
    obtain rfl := Except.ok.inj (hskip.symm.trans hskip')
    simp only [helse] at hbranch
    obtain ⟨no', result, hno', hinner, rfl⟩ := hbranch
    obtain rfl := Except.ok.inj (hno.symm.trans hno')
    obtain ⟨rfl, rfl, hwithin⟩ := ih hinner
    obtain ⟨hsignal, rfl, hskip⟩ := block_ends_early _ hconstruct within.ne_onward hrun
    exact ⟨hsignal, rfl, skipToCloseAfter_succ hwithin hskip⟩

/-! ### Rounds -/

/-- One round of a loop, its test being true: the body is run, and then the loop ends or goes on. -/
theorem loop_round_eq_ok {inner : Inner} {test body : List Char} {rounds : Nat}
    (htest : loopTest inner test c = .ok (true, body) c₁)
    (h : loop inner test (rounds + 1) c = .ok rest c') :
    ∃ outcome behind c₂, inner body c₁ = .ok (outcome, behind) c₂ ∧
      if outcome.signal = .leave then rest = behind ∧ c' = c₂
      else loop inner test rounds c₂ = .ok rest c' := by
  rw [loop, bind_ok htest] at h
  obtain ⟨⟨outcome, behind⟩, c₂, hround, h⟩ := bind_eq_ok h
  refine ⟨outcome, behind, c₂, inner_eq_ok.1 hround, ?_⟩
  dsimp only at h
  split at h
  · rename_i hleave
    obtain ⟨rfl, rfl⟩ := EStateM.Result.ok.inj h
    rw [if_pos hleave]
    exact ⟨rfl, rfl⟩
  · rename_i hgoOn
    rw [if_neg hgoOn]
    exact h

/-- **Every round that begins in a loop that ends well ends well**, and the loop ends with it or goes
on from there. -/
theorem Begins.loop_eq_ok {inner : Inner} {test body : List Char} {rounds left : Nat}
    (hround : Begins inner test rounds c left body c₁)
    (h : loop inner test rounds c = .ok rest c') :
    ∃ outcome behind c₂, inner body c₁ = .ok (outcome, behind) c₂ ∧
      if outcome.signal = .leave then rest = behind ∧ c' = c₂
      else loop inner test left c₂ = .ok rest c' := by
  induction hround with
  | first htest => exact loop_round_eq_ok htest h
  | later htest hrun hgoOn onward ih =>
    obtain ⟨outcome, behind, c₂, hrun', hnext⟩ := loop_round_eq_ok htest h
    obtain ⟨rfl, rfl, rfl⟩ := ok_pair_inj (hrun.symm.trans hrun')
    rw [if_neg hgoOn] at hnext
    exact ih hnext

/-- **`%Y` and `%Z` act on the innermost loop and stop everything in between.** A loop that ends well
hands no signal to the block around it. In any of its rounds whose body comes to a `%Y`, the loop ends
in the context there, behind its body as the scanner finds it from there, out of the blocks that are
open. That is where skipping the body ends, too, if no text with a percent sign was taken as it stands
on the way. If the body comes to a `%Z`, the loop goes on with its next test in the context there. -/
theorem loop_signal {isNested : Bool} {flow : Flow} {test : List Char}
    (h : construct setting (block setting program steps true {}) isNested running ('L' :: test) c =
      .ok (flow, rest) c') :
    flow = .onward running ∧
      ∀ {left body c₁ signal depth cs c₂},
        Begins (block setting program steps true {}) test maxRounds c left body c₁ →
        ComesTo setting program signal cs c₂ steps depth {} body c₁ →
          (signal = .leave → c' = c₂ ∧ skipToCloseAfter false depth cs = some rest ∧
            ∃ trace outcome, Evaluates setting true .onward {} ⟨body, c₁⟩ trace outcome ⟨rest, c'⟩ ∧
              ((∀ v ∈ trace, '%' ∉ verbatim v.rest) → skipToClose body = .ok rest)) ∧
          (signal = .again →
            loop (block setting program steps true {}) test left c₂ = .ok rest c') := by
  obtain ⟨rest', c₃, hloop, hflow⟩ := bind_eq_ok h
  obtain ⟨rfl, rfl, rfl⟩ := ok_pair_inj hflow
  refine ⟨rfl, ?_⟩
  intro left body c₁ signal depth cs c₂ hround hcomes
  obtain ⟨outcome, behind, c₃, hrun, hnext⟩ := hround.loop_eq_ok hloop
  obtain ⟨rfl, rfl, hskip⟩ := hcomes.block_eq_ok hrun
  constructor
  · intro hleave
    rw [if_pos hleave] at hnext
    obtain ⟨rfl, rfl⟩ := hnext
    obtain ⟨trace, hevaluates⟩ := evaluates_of_block hrun
    exact ⟨rfl, hskip, trace, outcome, hevaluates, hevaluates.skipToClose_eq rfl⟩
  · intro hagain
    rwa [if_neg (by rw [hagain]; decide)] at hnext

/-- The place where a part of a construct ends, if it ends well. -/
def endOf {ε α : Type} : EStateM.Result ε Context (α × List Char) → Option (List Char)
  | .ok (_, rest) _ => some rest
  | .error _ _ => none

theorem exists_of_endOf {ε α : Type} {result : EStateM.Result ε Context (α × List Char)}
    (h : endOf result = some rest) : ∃ a c', result = .ok (a, rest) c' := by
  cases result with
  | ok r c' =>
    obtain ⟨a, rest'⟩ := r
    obtain rfl := Option.some.inj h
    exact ⟨a, c', rfl⟩
  | error e c' => exact absurd h (by simp [endOf])

/-- What stands behind the `%L` of a loop that is left from a block in a conditional, with a block
for when its test is false. -/
def leaveLoopSample : List Char :=
  ['%', '(', '%', ')', '%', '(', 'x', '%', 'I', '%', '(', '%', ')', '%', '(', '%', '(', 'y', '%', 'Y',
    'z', '%', ')', '%', ')', '%', 'J', '%', '(', 'u', '%', ')', 'v', '%', ')', 'w']

/-- The loop is left at `%Y`, in the context there, and is over behind its body. -/
theorem loop_signal_leaveLoopSample :
    ∃ c', construct byteSample (block byteSample leaveLoopSample 40 true {}) false {}
        ('L' :: leaveLoopSample) (.start byteSample (.ofList []) ∅ 0x8000 0x8000) =
          .ok (.onward {}, ['w']) c' ∧
      c' = ((Context.start byteSample (.ofList []) ∅ 0x8000 0x8000).pushChar byteSample
          (byteSample.charset.translate 'x')).pushChar byteSample
            (byteSample.charset.translate 'y') ∧
      skipToCloseAfter false 2 (leaveLoopSample.drop 20) = some ['w'] := by
  have hend : endOf (construct byteSample (block byteSample leaveLoopSample 40 true {}) false {}
      ('L' :: leaveLoopSample) (.start byteSample (.ofList []) ∅ 0x8000 0x8000)) = some ['w'] := by
    decide +kernel
  obtain ⟨flow, c', h⟩ := exists_of_endOf hend
  obtain ⟨rfl, hrounds⟩ := loop_signal h
  have htest : loopTest (block byteSample leaveLoopSample 40 true {}) leaveLoopSample
      (.start byteSample (.ofList []) ∅ 0x8000 0x8000) =
        .ok (true, leaveLoopSample.drop 6) (.start byteSample (.ofList []) ∅ 0x8000 0x8000) := rfl
  obtain ⟨hc, hskip, -⟩ := (hrounds (.first htest) (.literal (by decide) (by decide)
    (.inYes rfl rfl rfl (.inBlock (.literal (by decide) (by decide) (.here .leave)))))).1 rfl
  exact ⟨c', h, hc, hskip⟩

/-- **A loop can be left within its body.** The text of the comment behind the `%Y` runs to the end of
its line, and so the body to the end of the script. But the scanner takes the `%)` in that text for
the end of the body, and the rest of the line is written behind the loop. -/
theorem loop_leaves_within_body :
    let c := Context.start byteSample (.ofList []) ∅ 0x8000 0x8000
    let loopText := "%(%)%(%B2F%Y%;REC8F8F50%) or %(100\n%)".toList
    let bodyText := "%B2F%;REC8F8F50%) or %(100\n%)".toList
    endOf (block byteSample bodyText 40 true {} bodyText c) = some [] ∧
      endOf (construct byteSample (block byteSample loopText 40 true {}) false {} ('L' :: loopText) c) =
        some " or %(100\n%)".toList ∧
      (disassemble ⟨byteSample.image, byteSample.charset, byteSample.floats⟩
        [⟨0x8000, 0x8000, .dataBlock (String.ofList ('%' :: 'L' :: loopText))⟩] {}).2.toOption =
          some "8000  #00 or 100\n" := by
  decide +kernel

end Script
end Disassembly
