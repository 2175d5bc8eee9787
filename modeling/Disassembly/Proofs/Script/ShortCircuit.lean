/-
# Short-circuiting does not change the truth of a block

A block of tests is made of comparisons, routine calls, further blocks of tests, and switches of how
results are combined (`Tests`, and `Spells` for its text). Run as it stands, it leaves out comparisons
that cannot change its truth value any more. Here it is evaluated in full instead (`Tests.evaluate`),
and if that goes well then so does the run, with the same truth and the same context. A truth value
that is decided is not changed by a further result (`Running.fold_of_decided`), so the run keeps the
same truth value all along, whatever the way of combining becomes later; and operands that do not
advance leave the context alone, so nothing is missed when they are not evaluated.
-/

import Disassembly.Proofs.Script.Arithmetic
import Disassembly.Proofs.Script.Ending
import Disassembly.Proofs.Script.Forward

namespace Disassembly
namespace Script

/-! ### Blocks of tests -/

/-- What a block of tests holds, in order. -/
inductive Tests
  | done
  | combine (way : Combinator) (onward : Tests)
  | compare (r : Relation) (a b : Operand) (onward : Tests)
  | call (name arguments : String) (onward : Tests)
  | block (inner onward : Tests)

/-- **The text of a block of tests**, nested or not, and the rest behind it. No operand of a comparison
advances. Line breaks and comments may stand between the tests. -/
inductive Spells : Bool → List Char → Tests → List Char → Prop
  | finish : Spells false [] .done []
  | close (cs : List Char) : Spells true ('%' :: ')' :: cs) .done cs
  | layout {isNested : Bool} {char : Char} {cs rest : List Char} {tests : Tests}
      (hbreak : Source.isBreak char = true)
      (onward : Spells isNested (Source.skipNewline (char :: cs)) tests rest) :
      Spells isNested (char :: cs) tests rest
  | remark {isNested : Bool} {cs rest : List Char} {tests : Tests}
      (onward : Spells isNested (Source.skipLine cs) tests rest) :
      Spells isNested ('%' :: '\'' :: cs) tests rest
  | combine {isNested : Bool} {cs cs' rest : List Char} {way : Combinator} {tests : Tests}
      (hway : combinator cs = .ok (way, cs')) (onward : Spells isNested cs' tests rest) :
      Spells isNested ('%' :: '?' :: 'B' :: cs) (.combine way tests) rest
  | compare {isNested : Bool} {first : Char} {cs cs' rest : List Char} {r : Relation} {a b : Operand}
      {tests : Tests} (hfirst : first ≠ 'B') (hrelation : relation first cs = .ok (r, a, b, cs'))
      (ha : a.advances = false) (hb : b.advances = false) (onward : Spells isNested cs' tests rest) :
      Spells isNested ('%' :: '?' :: first :: cs) (.compare r a b tests) rest
  | call {isNested : Bool} {cs cs' rest : List Char} {name arguments : String} {tests : Tests}
      (hcall : Source.call cs = .ok (name, arguments, cs'))
      (onward : Spells isNested cs' tests rest) :
      Spells isNested ('%' :: 'P' :: cs) (.call name arguments tests) rest
  | block {isNested : Bool} {cs cs' rest : List Char} {inner tests : Tests}
      (within : Spells true cs inner cs') (onward : Spells isNested cs' tests rest) :
      Spells isNested ('%' :: '(' :: cs) (.block inner tests) rest

/-- Evaluate tests without leaving any out, further blocks included. -/
def Tests.evaluate (setting : Setting) : Tests → Running → Action Running
  | done, running => return running
  | combine way onward, running => onward.evaluate setting { running with combinator := way }
  | compare r a b onward, running => do
    let x ← a.evaluate setting a.naturalWidth
    let y ← b.evaluate setting b.naturalWidth
    onward.evaluate setting (running.fold (r.holds x y))
  | call name arguments onward, running => do
    match ← Routine.call setting name arguments with
    | some truth => onward.evaluate setting (running.fold truth)
    | none => onward.evaluate setting running
  | block inner onward, running => do
    let result ← inner.evaluate setting {}
    onward.evaluate setting (running.fold result.truth)

/-! ### Results -/

/-- Results combined with a truth value one after the other, each in its own way. -/
def combined (truth : Bool) (found : List (Combinator × Bool)) : Bool :=
  found.foldl (fun truth result => result.1.apply truth result.2) truth

/-- **The truth of a list of results**: the first is taken as it is, and the others are combined with it
from the left. It is true if there is none. -/
def verdict : List (Combinator × Bool) → Bool
  | [] => true
  | first :: further => combined first.2 further

/-- The results of tests, each with the way of combining in force there. -/
def Tests.results (setting : Setting) : Tests → Combinator → Action (List (Combinator × Bool))
  | done, _ => return []
  | combine way onward, _ => onward.results setting way
  | compare r a b onward, way => do
    let x ← a.evaluate setting a.naturalWidth
    let y ← b.evaluate setting b.naturalWidth
    return (way, r.holds x y) :: (← onward.results setting way)
  | call name arguments onward, way => do
    match ← Routine.call setting name arguments with
    | some truth => return (way, truth) :: (← onward.results setting way)
    | none => onward.results setting way
  | block inner onward, way => do
    let within ← inner.results setting .and
    return (way, verdict within) :: (← onward.results setting way)

namespace Running

variable {running : Running}

/-- **A truth value that is decided is not changed by a further result.** -/
theorem fold_of_decided (h : running.decided = true) (result : Bool) :
    running.fold result = running := by
  obtain ⟨truth, tested, way⟩ := running
  obtain ⟨rfl, hway⟩ : tested = true ∧ _ := Bool.and_eq_true_iff.1 h
  cases way with
  | and =>
    obtain rfl : truth = false := by simpa using hway
    rfl
  | or =>
    obtain rfl : truth = true := hway
    rfl
  | xor => cases hway

theorem combinator_fold (running : Running) (result : Bool) :
    (running.fold result).combinator = running.combinator := by
  unfold fold
  split <;> rfl

/-- Take in a result that is combined in a given way. -/
def take (running : Running) (result : Combinator × Bool) : Running :=
  { running with combinator := result.1 }.fold result.2

theorem truth_foldl_take (htested : running.tested = true) (found : List (Combinator × Bool)) :
    (found.foldl take running).truth = combined running.truth found := by
  induction found generalizing running with
  | nil => rfl
  | cons result found ih =>
    have htake : running.take result =
        { running with combinator := result.1, truth := result.1.apply running.truth result.2 } :=
      if_pos htested
    rw [List.foldl_cons, ih (by rw [htake]; exact htested), htake]
    rfl

/-- The truth of a list of results is what becomes of the truth value that a block starts with. -/
theorem truth_foldl_take_start (found : List (Combinator × Bool)) :
    (found.foldl take {}).truth = verdict found := by
  cases found with
  | nil => rfl
  | cons first further => exact truth_foldl_take rfl further

end Running

variable {setting : Setting} {program cs cs' rest : List Char} {isNested : Bool}
  {running running' : Running} {tests : Tests} {c c' : Context}

/-- The truth value that tests lead to is the one that their results lead to. The way of combining
that a list of results starts with is the one of the first of them. -/
theorem Tests.results_of_evaluate (h : tests.evaluate setting running c = .ok running' c') :
    ∃ found, tests.results setting running.combinator c = .ok found c' ∧
      running'.truth = (found.foldl Running.take running).truth := by
  induction tests generalizing running running' c c' with
  | done =>
    obtain ⟨rfl, rfl⟩ := EStateM.Result.ok.inj h
    exact ⟨[], rfl, rfl⟩
  | combine way onward ih =>
    obtain ⟨found, hfound, htruth⟩ := ih h
    refine ⟨found, hfound, htruth.trans ?_⟩
    cases found <;> rfl
  | compare r a b onward ih =>
    obtain ⟨x, c₁, hx, h₁⟩ := bind_eq_ok h
    obtain ⟨y, c₂, hy, h₂⟩ := bind_eq_ok h₁
    obtain ⟨found, hfound, htruth⟩ := ih h₂
    rw [Running.combinator_fold] at hfound
    refine ⟨(running.combinator, r.holds x y) :: found, ?_, htruth⟩
    rw [results, bind_ok hx, bind_ok hy, bind_ok hfound, pure_apply]
  | call name arguments onward ih =>
    obtain ⟨result, c₁, hcall, h₁⟩ := bind_eq_ok h
    rw [results, bind_ok hcall]
    cases result with
    | some truth =>
      obtain ⟨found, hfound, htruth⟩ := ih h₁
      rw [Running.combinator_fold] at hfound
      refine ⟨(running.combinator, truth) :: found, ?_, htruth⟩
      dsimp only
      rw [bind_ok hfound, pure_apply]
    | none => exact ih h₁
  | block inner onward ihInner ihOnward =>
    obtain ⟨result, c₁, hinner, h₁⟩ := bind_eq_ok h
    obtain ⟨within, hwithin, hverdict⟩ := ihInner hinner
    obtain ⟨found, hfound, htruth⟩ := ihOnward h₁
    rw [Running.truth_foldl_take_start] at hverdict
    rw [Running.combinator_fold] at hfound
    rw [hverdict] at htruth
    refine ⟨(running.combinator, verdict within) :: found, ?_, htruth⟩
    rw [results, bind_ok hwithin, bind_ok hfound, pure_apply]

/-! ### Runs -/

/-- An operand that does not advance leaves the context alone. -/
theorem Operand.eq_of_evaluate {o : Operand} {n : UInt16} (hadvances : o.advances = false)
    (h : o.evaluate setting o.naturalWidth c = .ok n c') : c' = c := by
  rw [context_of_evaluate h, step, hadvances, Bool.and_false, if_neg Bool.false_ne_true]
  exact c.advance_zero

/-- A switch of how results are combined. -/
theorem comparison_combine {way : Combinator} (hway : combinator cs = .ok (way, cs')) :
    comparison setting running ('B' :: cs) c = .ok ({ running with combinator := way }, cs') c := by
  rw [comparison]
  simp only [Source.next, ofExcept_ok]
  rw [bind_ok (pure_apply _ _)]
  simp only [if_true, hway, ofExcept_ok]
  rw [bind_ok (pure_apply _ _), pure_apply]

/-- A comparison whose operands can be evaluated and do not advance comes to the same whether it is
left out or not. -/
theorem comparison_of_evaluate {first : Char} {r : Relation} {a b : Operand} {x y : UInt16}
    {c₁ c₂ : Context} (hfirst : first ≠ 'B') (hrelation : relation first cs = .ok (r, a, b, cs'))
    (ha : a.advances = false) (hb : b.advances = false)
    (hx : a.evaluate setting a.naturalWidth c = .ok x c₁)
    (hy : b.evaluate setting b.naturalWidth c₁ = .ok y c₂) :
    comparison setting running (first :: cs) c = .ok (running.fold (r.holds x y), cs') c₂ := by
  obtain rfl := Operand.eq_of_evaluate ha hx
  obtain rfl := Operand.eq_of_evaluate hb hy
  rw [comparison_eq hfirst hrelation hx hy]
  split
  · rw [Running.fold_of_decided ‹_›]
  · rfl

/-- **A run keeps the truth value that a full evaluation has.** The induction is on the text; a block
inside starts a truth value of its own. -/
theorem ends_of_evaluate (hspells : Spells isNested cs tests rest)
    (h : tests.evaluate setting running c = .ok running' c') :
    Ends setting program isNested running cs c ⟨running'.truth, .onward⟩ rest c' := by
  induction hspells generalizing running running' c c' with
  | finish =>
    obtain ⟨rfl, rfl⟩ := EStateM.Result.ok.inj h
    exact ends_nil setting program running c
  | close cs =>
    obtain ⟨rfl, rfl⟩ := EStateM.Result.ok.inj h
    exact ends_close setting program running cs c
  | layout hbreak _ ih => exact .layout hbreak (ih h)
  | remark _ ih => exact .simple (by decide) rfl (List.dropWhile_suffix _).length_le (ih h)
  | combine hway _ ih =>
    have hlength := (reads_of_combinator hway).suffix.length_le
    exact .comparison (comparison_combine hway) (Nat.le_succ_of_le hlength) (ih h)
  | compare hfirst hrelation ha hb _ ih =>
    obtain ⟨x, c₁, hx, h₁⟩ := bind_eq_ok h
    obtain ⟨y, c₂, hy, h₂⟩ := bind_eq_ok h₁
    have hlength := (reads_of_relation hrelation).2.suffix.length_le
    exact .comparison (comparison_of_evaluate hfirst hrelation ha hb hx hy)
      (Nat.le_succ_of_le hlength) (ih h₂)
  | call hcall _ ih =>
    obtain ⟨result, c₁, hroutine, h₁⟩ := bind_eq_ok h
    have hlength := (Source.call_suffix hcall).length_le
    refine .call (call_of_routine hcall hroutine) hlength ?_
    cases result with
    | some truth => exact ih h₁
    | none => exact ih h₁
  | block _ _ ihWithin ihOnward =>
    obtain ⟨result, c₁, hinner, h₁⟩ := bind_eq_ok h
    exact .block rfl (ihWithin hinner) (ihOnward h₁)

/-- **Short-circuiting does not change the truth of a block**, nor what it does. Where a full evaluation
goes well, the block ends well with the same truth and the same context, and the truth is that of the
results, each combined in the way in force there. -/
theorem shortCircuit_agrees (hspells : Spells isNested cs tests rest)
    (h : tests.evaluate setting {} c = .ok running c') :
    Ends setting program isNested {} cs c ⟨running.truth, .onward⟩ rest c' ∧
      ∃ found, tests.results setting .and c = .ok found c' ∧ running.truth = verdict found := by
  refine ⟨ends_of_evaluate hspells h, ?_⟩
  obtain ⟨found, hfound, htruth⟩ := Tests.results_of_evaluate h
  exact ⟨found, hfound, htruth.trans (Running.truth_foldl_take_start found)⟩

/-- A false comparison and a true one, combined by `or`, one that is left out, and an empty block,
combined by exclusive `or`. -/
def switchSample : List Char :=
  ['%', '?', 'N', 'E', '8', '0', '8', '0', '%', '?', 'B', 'O', '%', '?', 'E', 'Q', '8', '0', '8', '0',
    '%', '?', 'L', 'T', '0', 'F', '8', 'F', '%', '?', 'B', 'X', '%', '(', '%', ')']

/-- What it tests. -/
def switchTests : Tests :=
  .compare .ne ⟨0x80, none⟩ ⟨0x80, none⟩ <| .combine .or <| .compare .eq ⟨0x80, none⟩ ⟨0x80, none⟩ <|
    .compare .lt ⟨0x0F, none⟩ ⟨0x8F, none⟩ <| .combine .xor <| .block .done .done

/-- The comparison that is left out reads a byte; the truth value becomes false again behind it. -/
theorem shortCircuit_agrees_switchSample :
    ∃ c, Spells false switchSample switchTests [] ∧
      Ends byteSample switchSample false {} switchSample c ⟨false, .onward⟩ [] c ∧
      ∃ found, switchTests.results byteSample .and c = .ok found c ∧ false = verdict found := by
  have hspells : Spells false switchSample switchTests [] :=
    .compare (by decide) rfl rfl rfl (.combine rfl (.compare (by decide) rfl rfl rfl
      (.compare (by decide) rfl rfl rfl (.combine rfl (.block (.close []) .finish)))))
  have hevaluate : switchTests.evaluate byteSample {}
      (.start byteSample (.ofList []) ∅ 0x8000 0x8000) = .ok ⟨false, true, .xor⟩ _ := rfl
  exact ⟨_, hspells, shortCircuit_agrees hspells hevaluate⟩

end Script
end Disassembly
