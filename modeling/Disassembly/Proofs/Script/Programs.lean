/-
# Runs of programs

A program is run over a data block as one block without brackets (`Runs`). A pattern program is run at
every address of its block: its test, and the block behind it if the test is true (`Tries`,
`Searches`). As for blocks, the runs that end well are given by rules and have a trace.
-/

import Disassembly.Proofs.Script.Evaluation

namespace Disassembly
namespace Script

open Source (skipNewline skipLayout skipIndent)

/-- A program is run over a data block, with a trace. -/
def Runs (setting : Setting) (program : String) (c : Context) (trace : List Place) (c' : Context) :
    Prop :=
  ∃ outcome rest,
    Evaluates setting false .onward {} ⟨skipNewline program.toList, c⟩ trace outcome ⟨rest, c'⟩

/-- After the bracket that comes next, if one does. -/
def open? : List Char → Option (List Char)
  | '%' :: '(' :: body => some body
  | _ => none

/-- A pattern program is run at one address, with a trace and the truth of its test. -/
inductive Tries (setting : Setting) : List Char → Context → List Place → Bool → Context → Prop
  | whole {test : List Char} {c : Context} {trace : List Place} {outcome : Outcome} {stop : Place}
      (hopen : open? test = none)
      (run : Evaluates setting false .onward {} ⟨test, c⟩ trace outcome stop) :
      Tries setting test c trace outcome.truth stop.context
  | failed {test body : List Char} {c : Context} {trace : List Place} {outcome : Outcome}
      {stop : Place} (hopen : open? test = some body)
      (run : Evaluates setting true .onward {} ⟨body, c⟩ trace outcome stop)
      (hfalse : outcome.truth = false) : Tries setting test c trace false stop.context
  | found {test body : List Char} {c : Context} {trace : List Place} {outcome : Outcome}
      {stop : Place} (hopen : open? test = some body)
      (run : Evaluates setting true .onward {} ⟨body, c⟩ trace outcome stop)
      (htrue : outcome.truth = true) (hnone : open? (skipLayout stop.rest) = none) :
      Tries setting test c trace true stop.context
  | acted {test body action : List Char} {c : Context} {trace trace' : List Place}
      {outcome result : Outcome} {stop stop' : Place} (hopen : open? test = some body)
      (run : Evaluates setting true .onward {} ⟨body, c⟩ trace outcome stop)
      (htrue : outcome.truth = true) (haction : open? (skipLayout stop.rest) = some action)
      (act : Evaluates setting true .onward {} ⟨action, stop.context⟩ trace' result stop') :
      Tries setting test c (trace ++ trace') true stop'.context

/-- A pattern program is run at `count` addresses, from one address and a number of matches on. -/
inductive Searches (setting : Setting) (test : List Char) :
    Nat → Nat → UInt16 → Context → List Place → UInt16 → Context → Prop
  | done (address : Nat) (matched : UInt16) (c : Context) :
      Searches setting test 0 address matched c [] matched c
  | next {count address : Nat} {matched total : UInt16} {c c₁ c₂ : Context}
      {trace trace' : List Place} {found : Bool}
      (candidate : Tries setting test (c.beginCandidate (UInt16.ofNat address) matched) trace found
        c₁)
      (onward : Searches setting test count (address + 1) (if found then matched + 1 else matched)
        c₁ trace' total c₂) :
      Searches setting test (count + 1) address matched c (trace ++ trace') total c₂

/-- A pattern program is run at every address of its block, with a trace. -/
def RunsPattern (setting : Setting) (program : String) (c : Context) (trace : List Place)
    (c' : Context) : Prop :=
  ∃ matched, Searches setting (skipIndent (skipLayout program.toList))
    (c.blockEnd.toNat + 1 - c.blockStart.toNat) c.blockStart.toNat 0 c trace matched c'

variable {setting : Setting} {c c' : Context}

/-- **A run of a program over a data block that ends well is one by the rules.** -/
theorem runs_of_run {program : String} {outcome : Outcome}
    (h : run setting program c = .ok outcome c') : ∃ trace, Runs setting program c trace c' := by
  obtain ⟨⟨outcome', rest⟩, c₁, hrun, h₁⟩ := bind_eq_ok h
  obtain ⟨-, rfl⟩ := EStateM.Result.ok.inj h₁
  obtain ⟨trace, hrun⟩ := evaluates_of_block hrun
  exact ⟨trace, outcome', rest, hrun⟩

/-- A run at one address, with the brackets that may come told apart by `open?`. -/
theorem candidate_eq (setting : Setting) (program test : List Char) :
    candidate setting program test =
      match open? test with
      | some body => do
        let (outcome, cs) ← runBlock setting program true body
        if outcome.truth then
          match open? (skipLayout cs) with
          | some action => discard (runBlock setting program true action)
          | none => pure ()
        return outcome.truth
      | none => return (← runBlock setting program false test).1.truth := by
  unfold candidate
  split
  · refine congrArg (runBlock setting program true _ >>= ·) (funext fun (outcome, cs) => ?_)
    dsimp only
    split
    · split <;> simp_all [open?]
    · rfl
  · rename_i hopen
    rw [show open? test = none by
      unfold open?
      split
      · exact absurd rfl (hopen _)
      · rfl]

/-- A run of a pattern program at one address that ends well is one by the rules. -/
theorem tries_of_candidate {program test : List Char} {found : Bool}
    (h : candidate setting program test c = .ok found c') :
    ∃ trace, Tries setting test c trace found c' := by
  rw [candidate_eq] at h
  cases hopen : open? test with
  | none =>
    simp only [hopen] at h
    obtain ⟨⟨outcome, rest⟩, c₁, hrun, h₁⟩ := bind_eq_ok h
    obtain ⟨rfl, rfl⟩ := EStateM.Result.ok.inj h₁
    obtain ⟨trace, hrun⟩ := evaluates_of_block hrun
    exact ⟨trace, .whole hopen hrun⟩
  | some body =>
    simp only [hopen] at h
    obtain ⟨⟨outcome, rest⟩, c₁, hrun, h₁⟩ := bind_eq_ok h
    obtain ⟨trace, hrun⟩ := evaluates_of_block hrun
    cases htruth : outcome.truth with
    | false =>
      simp only [htruth, Bool.false_eq_true, if_false] at h₁
      obtain ⟨rfl, rfl⟩ := EStateM.Result.ok.inj h₁
      exact ⟨trace, .failed hopen hrun htruth⟩
    | true =>
      simp only [htruth, if_true] at h₁
      cases haction : open? (skipLayout rest) with
      | none =>
        simp only [haction] at h₁
        obtain ⟨rfl, rfl⟩ := EStateM.Result.ok.inj h₁
        exact ⟨trace, .found hopen hrun htruth haction⟩
      | some action =>
        simp only [haction] at h₁
        obtain ⟨u, c₂, hact, h₂⟩ := bind_eq_ok h₁
        obtain ⟨rfl, rfl⟩ := EStateM.Result.ok.inj h₂
        rw [Functor.discard, map_const, Function.comp_apply, map_eq_pure_bind] at hact
        obtain ⟨⟨result, rest'⟩, c₃, haction', h₃⟩ := bind_eq_ok hact
        obtain ⟨-, rfl⟩ := EStateM.Result.ok.inj h₃
        obtain ⟨trace', hact⟩ := evaluates_of_block haction'
        exact ⟨trace ++ trace', .acted hopen hrun htruth haction hact⟩

/-- **A search that ends well is one by the rules.** -/
theorem searches_of_candidates {program test : List Char} {count address : Nat}
    {matched total : UInt16}
    (h : candidates setting program test count address matched c = .ok total c') :
    ∃ trace, Searches setting test count address matched c trace total c' := by
  induction count generalizing address matched c with
  | zero =>
    obtain ⟨rfl, rfl⟩ := EStateM.Result.ok.inj h
    exact ⟨[], .done address matched c⟩
  | succ count ih =>
    rw [candidates, bind_ok (modify_apply _ _)] at h
    obtain ⟨found, c₁, hcandidate, h₁⟩ := bind_eq_ok h
    obtain ⟨trace, hcandidate⟩ := tries_of_candidate hcandidate
    obtain ⟨trace', honward⟩ := ih h₁
    exact ⟨trace ++ trace', .next hcandidate honward⟩

theorem runsPattern_of_runPattern {program : String} {matched : UInt16}
    (h : runPattern setting program c = .ok matched c') :
    ∃ trace, RunsPattern setting program c trace c' := by
  obtain ⟨trace, hsearch⟩ := searches_of_candidates h
  exact ⟨trace, matched, hsearch⟩

end Script
end Disassembly
