/-
# Runs of blocks, rule by rule

A block is run by a function that counts its steps. Here the runs that end well are given by rules
instead, one for each way in which a block can go on (`Evaluates`). A run also has a trace: the
constructs that it comes to, in order, each with the context there. So "on the way" has a meaning,
and what every run preserves is proved by induction on the rules. Every run of the function is one
by the rules (`evaluates_of_block`).
-/

import Disassembly.Proofs.Script.Action
import Disassembly.Script.Eval

namespace Disassembly
namespace Script

open Source (isBreak skipNewline skipLayout skipToClose expectOpen)

/-- A place that a run comes to: the rest of the script there, and the context. In a trace the rest
begins with the tag of a construct. -/
structure Place where
  rest : List Char
  context : Context

/-- The truth value so far after an inner block, which counts if it was run to its end. -/
def Running.after (running : Running) (outcome : Outcome) : Running :=
  if outcome.signal = .onward then running.fold outcome.truth else running

/-- After the `%J` that follows, if one does. -/
def else? (cs : List Char) : Option (List Char) :=
  match skipLayout cs with
  | '%' :: 'J' :: otherwise => some otherwise
  | _ => none

/-- After the block for when a test was true, and after a `%J` block behind it, if any. -/
def afterElse (cs : List Char) : Except ErrorKind (List Char) :=
  match else? cs with
  | some otherwise => expectOpen otherwise >>= skipToClose
  | none => .ok cs

/-- What a construct without blocks in it does: a comparison, a routine call, the end of a loop or of
its round, or a simple construct. -/
inductive Plain (setting : Setting) : Running → Place → Signal → Running → Place → Prop
  | compare {running running' : Running} {cs cs' : List Char} {c c' : Context}
      (h : comparison setting running cs c = .ok (running', cs') c') :
      Plain setting running ⟨'?' :: cs, c⟩ .onward running' ⟨cs', c'⟩
  | call {running running' : Running} {cs cs' : List Char} {c c' : Context}
      (h : Script.call setting running cs c = .ok (running', cs') c') :
      Plain setting running ⟨'P' :: cs, c⟩ .onward running' ⟨cs', c'⟩
  | leave (running : Running) (cs : List Char) (c : Context) :
      Plain setting running ⟨'Y' :: cs, c⟩ .leave running ⟨cs, c⟩
  | again (running : Running) (cs : List Char) (c : Context) :
      Plain setting running ⟨'Z' :: cs, c⟩ .again running ⟨cs, c⟩
  | simple {running : Running} {tag : Char} {cs cs' : List Char} {c c' : Context}
      (h : Script.simple setting tag cs c = .ok cs' c') :
      Plain setting running ⟨tag :: cs, c⟩ .onward running ⟨cs', c'⟩

/-- **Runs of blocks that end well.** A block goes on from a place, nested or not, after a signal of
the construct before and with a truth value so far; it has a trace and an outcome, and ends at a
place. After any other signal than `onward` what is left of a nested block is skipped. A loop whose
body has been run comes to itself again, so a trace shows it once for each round. -/
inductive Evaluates (setting : Setting) :
    Bool → Signal → Running → Place → List Place → Outcome → Place → Prop
  | finish (running : Running) (c : Context) :
      Evaluates setting false .onward running ⟨[], c⟩ [] ⟨running.truth, .onward⟩ ⟨[], c⟩
  | layout {isNested : Bool} {running : Running} {char : Char} {cs : List Char} {c : Context}
      {trace : List Place} {outcome : Outcome} {stop : Place} (hbreak : isBreak char = true)
      (onward : Evaluates setting isNested .onward running ⟨skipNewline (char :: cs), c⟩ trace
        outcome stop) :
      Evaluates setting isNested .onward running ⟨char :: cs, c⟩ trace outcome stop
  | literal {isNested : Bool} {running : Running} {char : Char} {cs : List Char} {c : Context}
      {trace : List Place} {outcome : Outcome} {stop : Place} (hbreak : isBreak char = false)
      (hpercent : char ≠ '%')
      (onward : Evaluates setting isNested .onward running
        ⟨cs, c.pushChar setting (setting.charset.translate char)⟩ trace outcome stop) :
      Evaluates setting isNested .onward running ⟨char :: cs, c⟩ trace outcome stop
  | close (running : Running) (cs : List Char) (c : Context) :
      Evaluates setting true .onward running ⟨'%' :: ')' :: cs, c⟩ [⟨')' :: cs, c⟩]
        ⟨running.truth, .onward⟩ ⟨cs, c⟩
  | plain {isNested : Bool} {signal : Signal} {running running' : Running} {text : List Char}
      {c : Context} {place stop : Place} {trace : List Place} {outcome : Outcome}
      (step : Plain setting running ⟨text, c⟩ signal running' place)
      (onward : Evaluates setting isNested signal running' place trace outcome stop) :
      Evaluates setting isNested .onward running ⟨'%' :: text, c⟩ (⟨text, c⟩ :: trace) outcome stop
  | block {isNested : Bool} {running : Running} {cs : List Char} {c : Context} {place stop : Place}
      {within trace : List Place} {result outcome : Outcome}
      (inner : Evaluates setting true .onward {} ⟨cs, c⟩ within result place)
      (onward : Evaluates setting isNested result.signal (running.after result) place trace outcome
        stop) :
      Evaluates setting isNested .onward running ⟨'%' :: '(' :: cs, c⟩
        (⟨'(' :: cs, c⟩ :: (within ++ trace)) outcome stop
  | ifTrue {isNested : Bool} {running : Running} {cs test yes rest : List Char} {c : Context}
      {tested branched stop : Place} {within within' trace : List Place}
      {truth result outcome : Outcome} (htest : expectOpen cs = .ok test)
      (test : Evaluates setting true .onward {} ⟨test, c⟩ within truth tested)
      (htrue : truth.truth = true) (hyes : expectOpen tested.rest = .ok yes)
      (branch : Evaluates setting true .onward {} ⟨yes, tested.context⟩ within' result branched)
      (hafter : afterElse branched.rest = .ok rest)
      (onward : Evaluates setting isNested result.signal running ⟨rest, branched.context⟩ trace
        outcome stop) :
      Evaluates setting isNested .onward running ⟨'%' :: 'I' :: cs, c⟩
        (⟨'I' :: cs, c⟩ :: (within ++ within' ++ trace)) outcome stop
  | ifFalse {isNested : Bool} {running : Running} {cs test yes rest : List Char} {c : Context}
      {tested stop : Place} {within trace : List Place} {truth outcome : Outcome}
      (htest : expectOpen cs = .ok test)
      (test : Evaluates setting true .onward {} ⟨test, c⟩ within truth tested)
      (hfalse : truth.truth = false) (hyes : expectOpen tested.rest = .ok yes)
      (hskip : skipToClose yes = .ok rest) (hnone : else? rest = none)
      (onward : Evaluates setting isNested .onward running ⟨rest, tested.context⟩ trace outcome
        stop) :
      Evaluates setting isNested .onward running ⟨'%' :: 'I' :: cs, c⟩
        (⟨'I' :: cs, c⟩ :: (within ++ trace)) outcome stop
  | ifElse {isNested : Bool} {running : Running} {cs test yes rest otherwise no : List Char}
      {c : Context} {tested branched stop : Place} {within within' trace : List Place}
      {truth result outcome : Outcome} (htest : expectOpen cs = .ok test)
      (test : Evaluates setting true .onward {} ⟨test, c⟩ within truth tested)
      (hfalse : truth.truth = false) (hyes : expectOpen tested.rest = .ok yes)
      (hskip : skipToClose yes = .ok rest) (helse : else? rest = some otherwise)
      (hno : expectOpen otherwise = .ok no)
      (branch : Evaluates setting true .onward {} ⟨no, tested.context⟩ within' result branched)
      (onward : Evaluates setting isNested result.signal running branched trace outcome stop) :
      Evaluates setting isNested .onward running ⟨'%' :: 'I' :: cs, c⟩
        (⟨'I' :: cs, c⟩ :: (within ++ within' ++ trace)) outcome stop
  | loopDone {isNested : Bool} {running : Running} {cs test body rest : List Char} {c : Context}
      {tested stop : Place} {within trace : List Place} {truth outcome : Outcome}
      (htest : expectOpen cs = .ok test)
      (test : Evaluates setting true .onward {} ⟨test, c⟩ within truth tested)
      (hfalse : truth.truth = false) (hbody : expectOpen tested.rest = .ok body)
      (hskip : skipToClose body = .ok rest)
      (onward : Evaluates setting isNested .onward running ⟨rest, tested.context⟩ trace outcome
        stop) :
      Evaluates setting isNested .onward running ⟨'%' :: 'L' :: cs, c⟩
        (⟨'L' :: cs, c⟩ :: (within ++ trace)) outcome stop
  | loopLeave {isNested : Bool} {running : Running} {cs test body : List Char} {c : Context}
      {tested ended stop : Place} {within within' trace : List Place}
      {truth result outcome : Outcome} (htest : expectOpen cs = .ok test)
      (test : Evaluates setting true .onward {} ⟨test, c⟩ within truth tested)
      (htrue : truth.truth = true) (hbody : expectOpen tested.rest = .ok body)
      (round : Evaluates setting true .onward {} ⟨body, tested.context⟩ within' result ended)
      (hleave : result.signal = .leave)
      (onward : Evaluates setting isNested .onward running ended trace outcome stop) :
      Evaluates setting isNested .onward running ⟨'%' :: 'L' :: cs, c⟩
        (⟨'L' :: cs, c⟩ :: (within ++ within' ++ trace)) outcome stop
  | loopRound {isNested : Bool} {running : Running} {cs test body : List Char} {c : Context}
      {tested ended stop : Place} {within within' trace : List Place}
      {truth result outcome : Outcome} (htest : expectOpen cs = .ok test)
      (test : Evaluates setting true .onward {} ⟨test, c⟩ within truth tested)
      (htrue : truth.truth = true) (hbody : expectOpen tested.rest = .ok body)
      (round : Evaluates setting true .onward {} ⟨body, tested.context⟩ within' result ended)
      (hgoOn : result.signal ≠ .leave)
      (again : Evaluates setting isNested .onward running ⟨'%' :: 'L' :: cs, ended.context⟩ trace
        outcome stop) :
      Evaluates setting isNested .onward running ⟨'%' :: 'L' :: cs, c⟩
        (⟨'L' :: cs, c⟩ :: (within ++ within' ++ trace)) outcome stop
  | skipped {signal : Signal} {running : Running} {cs rest : List Char} {c : Context}
      (hsignal : signal ≠ .onward) (hskip : skipToClose cs = .ok rest) :
      Evaluates setting true signal running ⟨cs, c⟩ [] ⟨running.truth, signal⟩ ⟨rest, c⟩
  | left {signal : Signal} (running : Running) (place : Place) (hsignal : signal ≠ .onward) :
      Evaluates setting false signal running place [] ⟨running.truth, signal⟩ place

/-! ### Parts of constructs that end well -/

variable {ε α : Type} {c c' : Context}

theorem own_eq_ok {x : Action α} {a : α} : Part.own x c = .ok a c' ↔ x c = .ok a c' := by
  unfold Part.own EStateM.adaptExcept
  cases x c <;> simp

theorem inner_eq_ok {x : Run α} {a : α} : Part.inner x c = .ok a c' ↔ x c = .ok a c' := by
  unfold Part.inner EStateM.adaptExcept
  cases x c <;> simp

theorem located_eq_ok {program rest : List Char} {x : Part α} {a : α} :
    Part.located program rest x c = .ok a c' ↔ x c = .ok a c' := by
  unfold Part.located
  split <;> simp [*]

theorem ofExcept_eq_ok {r : Except ErrorKind α} {a : α} :
    Action.ofExcept r c = .ok a c' ↔ r = .ok a ∧ c = c' := by
  cases r <;> simp [Action.ofExcept]

/-- A step that goes on from a piece of source ends well only if the piece is there. -/
theorem ofExcept_bind_eq_ok {β : Type} {r : Except ErrorKind α} {f : α → Action β} {b : β}
    (h : (Action.ofExcept r >>= f) c = .ok b c') : ∃ a, r = .ok a ∧ f a c = .ok b c' := by
  obtain ⟨a, c₁, hread, h₁⟩ := bind_eq_ok h
  obtain ⟨hr, rfl⟩ := ofExcept_eq_ok.1 hread
  exact ⟨a, hr, h₁⟩

/-- The same for a part of a construct. -/
theorem source_bind_eq_ok {β : Type} {r : Except ErrorKind α} {f : α → Part β} {b : β}
    (h : (Part.source r >>= f) c = .ok b c') : ∃ a, r = .ok a ∧ f a c = .ok b c' := by
  obtain ⟨a, c₁, hsource, h₁⟩ := bind_eq_ok h
  obtain ⟨hr, rfl⟩ := ofExcept_eq_ok.1 (own_eq_ok.1 hsource)
  exact ⟨a, hr, h₁⟩

/-- A result and what goes with it, taken apart. -/
theorem ok_pair_inj {β : Type} {a a' : α} {b b' : β}
    (h : (.ok (a, b) c : EStateM.Result ε Context (α × β)) = .ok (a', b') c') :
    a = a' ∧ b = b' ∧ c = c' := by
  injection h with h₁ h₂
  exact ⟨congrArg Prod.fst h₁, congrArg Prod.snd h₁, h₂⟩

section Blocks

variable {setting : Setting} {inner : Inner} {cs cs' : List Char}

theorem nested_eq_ok {outcome : Outcome} (h : nested inner cs c = .ok (outcome, cs') c') :
    ∃ body, expectOpen cs = .ok body ∧ inner body c = .ok (outcome, cs') c' := by
  obtain ⟨body, hopen, hrun⟩ := source_bind_eq_ok h
  exact ⟨body, hopen, inner_eq_ok.1 hrun⟩

/-- A block that is run on a condition is run or skipped. -/
theorem nestedIf_eq_ok {condition : Bool} {signal : Signal}
    (h : nestedIf inner condition cs c = .ok (signal, cs') c') :
    ∃ body, expectOpen cs = .ok body ∧
      if condition then ∃ outcome, inner body c = .ok (outcome, cs') c' ∧ signal = outcome.signal
      else skipToClose body = .ok cs' ∧ signal = .onward ∧ c' = c := by
  obtain ⟨body, hopen, h₁⟩ := source_bind_eq_ok h
  refine ⟨body, hopen, ?_⟩
  cases condition with
  | true =>
    obtain ⟨⟨outcome, rest⟩, c₂, hrun, h₂⟩ := bind_eq_ok h₁
    obtain ⟨rfl, rfl, rfl⟩ := ok_pair_inj h₂
    exact ⟨outcome, inner_eq_ok.1 hrun, rfl⟩
  | false =>
    obtain ⟨rest, hskip, h₂⟩ := source_bind_eq_ok h₁
    obtain ⟨rfl, rfl, rfl⟩ := ok_pair_inj h₂
    exact ⟨hskip, rfl, rfl⟩

/-- A conditional, with the `%J` that may follow told apart by `else?`. -/
theorem conditional_eq (inner : Inner) (cs : List Char) :
    conditional inner cs = (do
      let (test, cs) ← nested inner cs
      let (signal, cs) ← nestedIf inner test.truth cs
      match else? cs with
      | some otherwise =>
        let (signal', cs) ← nestedIf inner (!test.truth) otherwise
        return (if test.truth then signal else signal', cs)
      | none => return (signal, cs)) := by
  unfold conditional else?
  refine congrArg (nested inner cs >>= ·) (funext fun (test, cs) => ?_)
  refine congrArg (nestedIf inner test.truth cs >>= ·) (funext fun (signal, cs) => ?_)
  dsimp only
  split <;> simp_all

/-- A conditional that ends well has run one of its blocks and skipped the other, if there is one. -/
theorem conditional_eq_ok {signal : Signal} (h : conditional inner cs c = .ok (signal, cs') c') :
    ∃ test truth rest c₁ yes, expectOpen cs = .ok test ∧ inner test c = .ok (truth, rest) c₁ ∧
      expectOpen rest = .ok yes ∧
      if truth.truth then ∃ result rest', inner yes c₁ = .ok (result, rest') c' ∧
        signal = result.signal ∧ afterElse rest' = .ok cs'
      else ∃ rest', skipToClose yes = .ok rest' ∧
        match else? rest' with
        | some otherwise => ∃ no result, expectOpen otherwise = .ok no ∧
            inner no c₁ = .ok (result, cs') c' ∧ signal = result.signal
        | none => cs' = rest' ∧ signal = .onward ∧ c' = c₁ := by
  rw [conditional_eq] at h
  obtain ⟨⟨truth, rest⟩, c₁, htest, h₁⟩ := bind_eq_ok h
  obtain ⟨⟨signal₁, rest₁⟩, c₂, hyes, h₂⟩ := bind_eq_ok h₁
  obtain ⟨test, hopen, hrun⟩ := nested_eq_ok htest
  obtain ⟨yes, hyesOpen, hbranch⟩ := nestedIf_eq_ok hyes
  refine ⟨test, truth, rest, c₁, yes, hopen, hrun, hyesOpen, ?_⟩
  cases htruth : truth.truth with
  | true =>
    simp only [htruth, if_true, Bool.not_true] at hbranch h₂ ⊢
    obtain ⟨result, hresult, rfl⟩ := hbranch
    unfold afterElse
    cases helse : else? rest₁ with
    | some otherwise =>
      simp only [helse] at h₂
      obtain ⟨⟨signal', rest'⟩, c₃, hno, h₃⟩ := bind_eq_ok h₂
      obtain ⟨no, hnoOpen, hskip, rfl, rfl⟩ := nestedIf_eq_ok hno
      obtain ⟨rfl, rfl, rfl⟩ := ok_pair_inj h₃
      refine ⟨result, rest₁, hresult, rfl, ?_⟩
      simp only [helse, hnoOpen]
      exact hskip
    | none =>
      simp only [helse] at h₂
      obtain ⟨rfl, rfl, rfl⟩ := ok_pair_inj h₂
      exact ⟨result, rest₁, hresult, rfl, by simp only [helse]⟩
  | false =>
    simp only [htruth, Bool.false_eq_true, if_false, Bool.not_false] at hbranch h₂ ⊢
    obtain ⟨hskip, rfl, rfl⟩ := hbranch
    refine ⟨rest₁, hskip, ?_⟩
    cases helse : else? rest₁ with
    | some otherwise =>
      simp only [helse] at h₂
      obtain ⟨⟨signal', rest'⟩, c₃, hno, h₃⟩ := bind_eq_ok h₂
      obtain ⟨no, hnoOpen, hrun'⟩ := nestedIf_eq_ok hno
      rw [if_pos rfl] at hrun'
      obtain ⟨result, hresult, rfl⟩ := hrun'
      obtain ⟨rfl, rfl, rfl⟩ := ok_pair_inj h₃
      exact ⟨no, result, hnoOpen, hresult, rfl⟩
    | none =>
      simp only [helse] at h₂
      obtain ⟨rfl, rfl, rfl⟩ := ok_pair_inj h₂
      exact ⟨rfl, rfl, rfl⟩

/-- A test of a loop that ends well leads to the body, or behind it. -/
theorem loopTest_eq_ok {goOn : Bool} (h : loopTest inner cs c = .ok (goOn, cs') c') :
    ∃ test outcome rest body, expectOpen cs = .ok test ∧
      inner test c = .ok (outcome, rest) c' ∧ goOn = outcome.truth ∧
      expectOpen rest = .ok body ∧ if goOn then body = cs' else skipToClose body = .ok cs' := by
  obtain ⟨⟨outcome, rest⟩, c₁, htest, h₁⟩ := bind_eq_ok h
  obtain ⟨test, hopen, hrun⟩ := nested_eq_ok htest
  obtain ⟨body, hbody, h₂⟩ := source_bind_eq_ok h₁
  refine ⟨test, outcome, rest, body, hopen, ?_⟩
  cases htruth : outcome.truth with
  | true =>
    simp only [htruth, if_true] at h₂
    obtain ⟨rfl, rfl, rfl⟩ := ok_pair_inj h₂
    exact ⟨hrun, rfl, hbody, rfl⟩
  | false =>
    simp only [htruth, Bool.false_eq_true, if_false] at h₂
    obtain ⟨rest', hskip, h₃⟩ := source_bind_eq_ok h₂
    obtain ⟨rfl, rfl, rfl⟩ := ok_pair_inj h₃
    exact ⟨hrun, rfl, hbody, hskip⟩

/-- The runs of inner blocks that end well are runs by the rules. -/
def FollowsRules (setting : Setting) (inner : Inner) : Prop :=
  ∀ {body rest : List Char} {c c' : Context} {outcome : Outcome},
    inner body c = .ok (outcome, rest) c' →
      ∃ trace, Evaluates setting true .onward {} ⟨body, c⟩ trace outcome ⟨rest, c'⟩

/-- A part of a run leads from one place to another: whatever run goes on from there is the rest of
a run of the block. -/
def Leads (setting : Setting) (isNested : Bool) (running : Running) (place : Place) (signal : Signal)
    (running' : Running) (place' : Place) : Prop :=
  ∃ part, ∀ {trace outcome stop},
    Evaluates setting isNested signal running' place' trace outcome stop →
      Evaluates setting isNested .onward running place (part ++ trace) outcome stop

variable {isNested : Bool} {running : Running}

/-- What a construct asks of its block leads on from the place of the construct. -/
def FlowLeads (setting : Setting) (isNested : Bool) (running : Running) (text : List Char)
    (c : Context) (place : Place) : Flow → Prop
  | .onward running' => Leads setting isNested running ⟨'%' :: text, c⟩ .onward running' place
  | .leave => Leads setting isNested running ⟨'%' :: text, c⟩ .leave running place
  | .again => Leads setting isNested running ⟨'%' :: text, c⟩ .again running place
  | .close => isNested = true ∧ text = ')' :: place.rest ∧ place.context = c

/-- A signal of a construct with blocks leads on as the block does. -/
theorem flowLeads_flow {running' : Running} {text : List Char} {place : Place} {signal : Signal}
    (h : Leads setting isNested running ⟨'%' :: text, c⟩ signal
      (if signal = .onward then running' else running) place) :
    FlowLeads setting isNested running text c place (signal.flow running') := by
  cases signal <;> exact h

variable (hinner : FollowsRules setting inner)
include hinner

/-- **A conditional leads behind its blocks.** -/
theorem conditional_leads {signal : Signal} (h : conditional inner cs c = .ok (signal, cs') c') :
    Leads setting isNested running ⟨'%' :: 'I' :: cs, c⟩ signal running ⟨cs', c'⟩ := by
  obtain ⟨test, truth, rest, c₁, yes, hopen, hrun, hyes, hbranch⟩ := conditional_eq_ok h
  obtain ⟨within, htested⟩ := hinner hrun
  cases htruth : truth.truth with
  | true =>
    rw [htruth, if_pos rfl] at hbranch
    obtain ⟨result, rest', hrun', rfl, hafter⟩ := hbranch
    obtain ⟨within', hbranched⟩ := hinner hrun'
    exact ⟨⟨'I' :: cs, c⟩ :: (within ++ within'), fun onward =>
      .ifTrue hopen htested htruth hyes hbranched hafter onward⟩
  | false =>
    rw [htruth, if_neg Bool.false_ne_true] at hbranch
    obtain ⟨rest', hskip, hbranch⟩ := hbranch
    cases helse : else? rest' with
    | some otherwise =>
      simp only [helse] at hbranch
      obtain ⟨no, result, hno, hrun', rfl⟩ := hbranch
      obtain ⟨within', hbranched⟩ := hinner hrun'
      exact ⟨⟨'I' :: cs, c⟩ :: (within ++ within'), fun onward =>
        .ifElse hopen htested htruth hyes hskip helse hno hbranched onward⟩
    | none =>
      simp only [helse] at hbranch
      obtain ⟨rfl, rfl, rfl⟩ := hbranch
      exact ⟨⟨'I' :: cs, c⟩ :: within, fun onward =>
        .ifFalse hopen htested htruth hyes hskip helse onward⟩

/-- A loop whose test was false leads behind its body. -/
theorem loop_done_leads (h : loopTest inner cs c = .ok (false, cs') c') :
    Leads setting isNested running ⟨'%' :: 'L' :: cs, c⟩ .onward running ⟨cs', c'⟩ := by
  obtain ⟨test, outcome, rest, body, hopen, hrun, htruth, hbody, hskip⟩ := loopTest_eq_ok h
  obtain ⟨within, htested⟩ := hinner hrun
  exact ⟨⟨'L' :: cs, c⟩ :: within, fun onward =>
    .loopDone hopen htested htruth.symm hbody hskip onward⟩

/-- **A loop leads behind its body**, after any number of rounds. -/
theorem loop_leads (rounds : Nat) (h : loop inner cs rounds c = .ok cs' c') :
    Leads setting isNested running ⟨'%' :: 'L' :: cs, c⟩ .onward running ⟨cs', c'⟩ := by
  induction rounds generalizing c with
  | zero =>
    obtain ⟨⟨goOn, rest⟩, c₁, htest, h⟩ := bind_eq_ok h
    cases goOn with
    | true => exact absurd h (by simp)
    | false =>
      obtain ⟨rfl, rfl⟩ := EStateM.Result.ok.inj h
      exact loop_done_leads hinner htest
  | succ rounds ih =>
    obtain ⟨⟨goOn, rest⟩, c₁, htest, h⟩ := bind_eq_ok h
    cases goOn with
    | false =>
      obtain ⟨rfl, rfl⟩ := EStateM.Result.ok.inj h
      exact loop_done_leads hinner htest
    | true =>
      obtain ⟨test, truth, rest', body, hopen, hrun, htruth, hbody, rfl⟩ := loopTest_eq_ok htest
      obtain ⟨within, htested⟩ := hinner hrun
      obtain ⟨⟨result, rest''⟩, c₂, hround, h⟩ := bind_eq_ok h
      obtain ⟨within', hround⟩ := hinner (inner_eq_ok.1 hround)
      simp only at h
      split at h
      · rename_i hleave
        obtain ⟨rfl, rfl⟩ := EStateM.Result.ok.inj h
        exact ⟨⟨'L' :: cs, c⟩ :: (within ++ within'), fun onward =>
          .loopLeave hopen htested htruth.symm hbody hround hleave onward⟩
      · rename_i hgoOn
        obtain ⟨part, hpart⟩ := ih h
        refine ⟨⟨'L' :: cs, c⟩ :: (within ++ within' ++ part), fun onward => ?_⟩
        have hround := Evaluates.loopRound hopen htested htruth.symm hbody hround hgoOn
          (hpart onward)
        rwa [← List.append_assoc, ← List.cons_append] at hround

/-- **A construct leads on, or closes its block**, if the runs of the blocks inside it follow the
rules. -/
theorem construct_leads {flow : Flow} {text : List Char}
    (h : construct setting inner isNested running text c = .ok (flow, cs') c') :
    FlowLeads setting isNested running text c ⟨cs', c'⟩ flow := by
  have hplain {signal : Signal} {running' : Running}
      (step : Plain setting running ⟨text, c⟩ signal running' ⟨cs', c'⟩) :
      Leads setting isNested running ⟨'%' :: text, c⟩ signal running' ⟨cs', c'⟩ :=
    ⟨[⟨text, c⟩], fun onward => .plain step onward⟩
  cases text with
  | nil => exact absurd h (by simp [construct])
  | cons tag cs =>
    generalize hpart : construct setting inner isNested running (tag :: cs) = part at h
    simp only [construct] at hpart
    split at hpart <;> subst hpart
    · obtain ⟨⟨outcome, rest⟩, c₁, hrun, h₁⟩ := bind_eq_ok h
      obtain ⟨rfl, rfl, rfl⟩ := ok_pair_inj h₁
      obtain ⟨within, hrun⟩ := hinner (inner_eq_ok.1 hrun)
      exact flowLeads_flow ⟨⟨'(' :: cs, c⟩ :: within, fun onward => .block hrun onward⟩
    · split at h
      · obtain ⟨rfl, rfl, rfl⟩ := ok_pair_inj h
        exact ⟨‹_›, rfl, rfl⟩
      · exact absurd h (by simp)
    · obtain ⟨⟨running', rest⟩, c₁, hrun, h₁⟩ := bind_eq_ok h
      obtain ⟨rfl, rfl, rfl⟩ := ok_pair_inj h₁
      exact hplain (.compare (own_eq_ok.1 hrun))
    · obtain ⟨⟨running', rest⟩, c₁, hrun, h₁⟩ := bind_eq_ok h
      obtain ⟨rfl, rfl, rfl⟩ := ok_pair_inj h₁
      exact hplain (.call (own_eq_ok.1 hrun))
    · obtain ⟨⟨signal, rest⟩, c₁, hrun, h₁⟩ := bind_eq_ok h
      obtain ⟨rfl, rfl, rfl⟩ := ok_pair_inj h₁
      refine flowLeads_flow ?_
      rw [ite_self]
      exact conditional_leads hinner hrun
    · obtain ⟨rest, c₁, hrun, h₁⟩ := bind_eq_ok h
      obtain ⟨rfl, rfl, rfl⟩ := ok_pair_inj h₁
      exact loop_leads hinner maxRounds hrun
    · obtain ⟨rfl, rfl, rfl⟩ := ok_pair_inj h
      exact hplain (.leave _ _ _)
    · obtain ⟨rfl, rfl, rfl⟩ := ok_pair_inj h
      exact hplain (.again _ _ _)
    · obtain ⟨rest, c₁, hrun, h₁⟩ := bind_eq_ok h
      obtain ⟨rfl, rfl, rfl⟩ := ok_pair_inj h₁
      exact hplain (.simple (own_eq_ok.1 hrun))

end Blocks

variable {setting : Setting} {isNested : Bool} {running : Running}

/-- A nested block that ends early is skipped to its end, and nothing else is done. -/
theorem endEarly_eq_ok {program at' cs rest : List Char} {signal : Signal} {outcome : Outcome}
    (h : endEarly program at' true running signal cs c = .ok (outcome, rest) c') :
    outcome = ⟨running.truth, signal⟩ ∧ skipToClose cs = .ok rest ∧ c' = c := by
  rw [endEarly, if_pos rfl] at h
  cases hskip : skipToClose cs with
  | ok rest' =>
    simp only [hskip] at h
    obtain ⟨rfl, rfl, rfl⟩ := ok_pair_inj h
    exact ⟨rfl, rfl, rfl⟩
  | error kind =>
    simp only [hskip] at h
    exact absurd h (by simp [Run.fail])

/-- A block that ends early is skipped to its end if it is nested. -/
theorem evaluates_of_endEarly {program at' cs rest : List Char} {signal : Signal} {outcome : Outcome}
    (hsignal : signal ≠ .onward)
    (h : endEarly program at' isNested running signal cs c = .ok (outcome, rest) c') :
    Evaluates setting isNested signal running ⟨cs, c⟩ [] outcome ⟨rest, c'⟩ := by
  cases isNested with
  | true =>
    obtain ⟨rfl, hskip, rfl⟩ := endEarly_eq_ok h
    exact .skipped hsignal hskip
  | false =>
    rw [endEarly, if_neg Bool.false_ne_true] at h
    obtain ⟨rfl, rfl, rfl⟩ := ok_pair_inj h
    exact .left running ⟨cs, c⟩ hsignal

/-- A construct runs and tells the block how to go on. -/
theorem block_construct (setting : Setting) (program : List Char) (steps : Nat) (isNested : Bool)
    (running : Running) (cs : List Char) (c : Context) :
    block setting program (steps + 1) isNested running ('%' :: cs) c =
      match Part.located program ('%' :: cs)
        (construct setting (block setting program steps true {}) isNested running cs) c with
      | .error e c => .error e c
      | .ok (.onward running, cs') c => block setting program steps isNested running cs' c
      | .ok (.close, cs') c => .ok (⟨running.truth, .onward⟩, cs') c
      | .ok (.leave, cs') c => endEarly program ('%' :: cs) isNested running .leave cs' c
      | .ok (.again, cs') c => endEarly program ('%' :: cs) isNested running .again cs' c := by
  have hbreak : Source.isBreak '%' = false := by decide
  rw [block]
  simp only [hbreak, Bool.false_eq_true, if_false, if_true, bind_apply]
  cases Part.located program ('%' :: cs)
    (construct setting (block setting program steps true {}) isNested running cs) c with
  | error e c => rfl
  | ok r c => obtain ⟨flow, cs'⟩ := r; cases flow <;> rfl

/-- **Every run of a block that ends well is a run by the rules.** The induction is on the steps,
which also bound how deep blocks are nested. -/
theorem evaluates_of_block {program cs rest : List Char} {steps : Nat} {outcome : Outcome}
    (h : block setting program steps isNested running cs c = .ok (outcome, rest) c') :
    ∃ trace, Evaluates setting isNested .onward running ⟨cs, c⟩ trace outcome ⟨rest, c'⟩ := by
  induction steps generalizing isNested running cs c outcome rest c' with
  | zero => exact absurd h (by simp [block, Run.fail])
  | succ steps ih =>
    cases cs with
    | nil =>
      cases isNested with
      | true => exact absurd h (by simp [block, Run.fail])
      | false =>
        obtain ⟨rfl, rfl, rfl⟩ := ok_pair_inj h
        exact ⟨[], .finish running c⟩
    | cons char cs =>
      by_cases hpercent : char = '%'
      · subst hpercent
        rw [block_construct] at h
        split at h
        · exact absurd h (by simp)
        · rename_i running' cs' c₁ hrun
          obtain ⟨part, hlead⟩ := construct_leads ih (located_eq_ok.1 hrun)
          obtain ⟨trace, honward⟩ := ih h
          exact ⟨_, hlead honward⟩
        · rename_i cs' c₁ hrun
          obtain ⟨rfl, rfl, rfl⟩ := construct_leads ih (located_eq_ok.1 hrun)
          obtain ⟨rfl, rfl, rfl⟩ := ok_pair_inj h
          exact ⟨_, .close running _ _⟩
        · rename_i cs' c₁ hrun
          obtain ⟨part, hlead⟩ := construct_leads ih (located_eq_ok.1 hrun)
          exact ⟨_, hlead (evaluates_of_endEarly (by decide) h)⟩
        · rename_i cs' c₁ hrun
          obtain ⟨part, hlead⟩ := construct_leads ih (located_eq_ok.1 hrun)
          exact ⟨_, hlead (evaluates_of_endEarly (by decide) h)⟩
      · cases hbreak : isBreak char with
        | true =>
          rw [block, hbreak, if_pos rfl] at h
          obtain ⟨trace, honward⟩ := ih h
          exact ⟨trace, .layout hbreak honward⟩
        | false =>
          rw [block, hbreak, if_neg Bool.false_ne_true, if_neg hpercent,
            bind_ok (modify_apply _ _)] at h
          obtain ⟨trace, honward⟩ := ih h
          exact ⟨trace, .literal hbreak hpercent honward⟩

end Script
end Disassembly
