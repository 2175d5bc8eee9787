/-
# The references that scripts record

A script refers to an address where it writes one: the construct `%A` evaluates its operand to a word
and records it (`Place.emitted?`). Nothing else that a script can do records a reference, so a run
records exactly the words that are emitted on its way (`Evaluates.records`), and so do the runs of
whole programs.
-/

import Disassembly.Proofs.Script.Programs
import Disassembly.Proofs.Script.Scripted

namespace Disassembly
namespace Script

/-- The word that the construct at a place writes as an address, if it is the one that does. -/
def Place.emitted? (setting : Setting) (v : Place) : Option UInt16 :=
  match v.rest with
  | 'A' :: cs =>
    match Operand.read cs with
    | .ok (o, _) =>
      match o.evaluate setting .word v.context with
      | .ok n _ => some n
      | .error _ _ => none
    | .error _ => none
  | _ => none

/-- The references after a run are those before it and the words emitted on its way. -/
def Records (setting : Setting) (trace : List Place) (before after : Std.TreeSet UInt16) : Prop :=
  ∀ a, a ∈ after ↔ a ∈ before ∨ ∃ v ∈ trace, v.emitted? setting = some a

variable {setting : Setting} {c c' : Context} {cs cs' : List Char}

namespace Records

variable {trace trace' : List Place} {refs refs' refs'' : Std.TreeSet UInt16} {v : Place}

protected theorem refl (setting : Setting) (refs : Std.TreeSet UInt16) :
    Records setting [] refs refs := by
  intro a
  simp

/-- A run in two parts records what its parts record. -/
theorem append (h : Records setting trace refs refs') (h' : Records setting trace' refs' refs'') :
    Records setting (trace ++ trace') refs refs'' := by
  intro a
  rw [h' a, h a, or_assoc]
  refine or_congr_right ?_
  simp only [List.mem_append, or_and_right, exists_or]

/-- A construct that emits nothing adds nothing to what is recorded behind it. -/
theorem cons_of_none (hnone : v.emitted? setting = none) (h : Records setting trace refs refs') :
    Records setting (v :: trace) refs refs' := by
  intro a
  simp only [h a, List.mem_cons, exists_eq_or_imp, hnone, reduceCtorEq, false_or]

end Records

/-! ### Single constructs -/

/-- An edit that records no reference leaves them alone. -/
theorem Edit.references_apply (setting : Setting) (c : Context) {e : Edit} (h : e.isQuiet = true) :
    (e.apply setting c).references = c.references := by
  cases e with
  | pushText text =>
    simp only [apply, Context.pushText]
    split <;> rfl
  | startLine =>
    simp only [apply, Context.startLine]
    split <;> rfl
  | endLine =>
    simp only [apply, Context.endLine]
    split <;> rfl
  | recordReference address => exact absurd h (by simp [isQuiet])
  | _ => cases c; rfl

/-- A quiet step leaves the references alone. -/
theorem ScriptedBy.references_eq {ε α : Type} {x : EStateM ε Context α} {a : α}
    (hx : Quiet setting x) (h : x c = .ok a c') : c'.references = c.references := by
  obtain ⟨edits, result, hall, hc, -⟩ := hx c c rfl
  have hedits : (Edit.applyAll setting edits c).references = c.references := by
    clear hc h
    induction edits generalizing c with
    | nil => rfl
    | cons e edits ih =>
      rw [List.all_cons, Bool.and_eq_true] at hall
      exact (ih hall.2).trans (Edit.references_apply setting c hall.1)
  cases result with
  | error e => exact absurd (h.symm.trans hc) (by simp [outcome])
  | ok b =>
    obtain ⟨-, rfl⟩ := EStateM.Result.ok.inj (h.symm.trans hc)
    exact hedits

/-- **Writing an address records it.** -/
theorem address_records (h : address setting cs c = .ok cs' c') :
    Records setting [⟨'A' :: cs, c⟩] c.references c'.references := by
  obtain ⟨⟨o, rest⟩, hread, h₁⟩ := ofExcept_bind_eq_ok h
  obtain ⟨n, c₁, hvalue, h₂⟩ := bind_eq_ok h₁
  rw [bind_ok (modify_apply _ _)] at h₂
  obtain ⟨u, c₂, hpush, h₃⟩ := bind_eq_ok h₂
  obtain ⟨-, rfl⟩ := EStateM.Result.ok.inj h₃
  have hafter : c₂.references = c.references.insert n := by
    rw [(quiet_pushNumber _ _ _).references_eq hpush, Context.recordReference,
      (quiet_evaluate o .word).references_eq hvalue]
  intro a
  have hemitted : Place.emitted? setting ⟨'A' :: cs, c⟩ = some n := by
    simp only [Place.emitted?, hread, hvalue]
  rw [hafter, Std.TreeSet.mem_insert, Std.LawfulEqCmp.compare_eq_iff_eq]
  simp only [List.mem_singleton, exists_eq_left, hemitted, Option.some.injEq]
  exact or_comm

/-- **A construct without blocks records what it emits.** -/
theorem Plain.records {running running' : Running} {signal : Signal} {place place' : Place}
    (h : Plain setting running place signal running' place') :
    Records setting [place] place.context.references place'.context.references := by
  have hquiet {ε α : Type} {x : EStateM ε Context α} {a : α} {v : Place} {c' : Context}
      (hx : Quiet setting x) (hrun : x v.context = .ok a c') (hnone : v.emitted? setting = none) :
      Records setting [v] v.context.references c'.references := by
    rw [hx.references_eq hrun]
    exact .cons_of_none hnone (.refl setting _)
  cases h with
  | @compare running cs cs' c c' h =>
    exact hquiet (v := ⟨'?' :: cs, c⟩) (quiet_comparison _ _) h rfl
  | @call running cs cs' c c' h => exact hquiet (v := ⟨'P' :: cs, c⟩) (quiet_call _ _) h rfl
  | leave cs c => exact .cons_of_none rfl (.refl setting _)
  | again cs c => exact .cons_of_none rfl (.refl setting _)
  | @simple tag cs cs' c c' h =>
    by_cases htag : tag = 'A'
    · subst htag
      exact address_records h
    · refine hquiet (v := ⟨tag :: cs, c⟩) (quiet_simple htag cs) h ?_
      simp only [Place.emitted?]
      split
      · rename_i heq
        exact absurd (List.cons.inj heq).1 htag
      · rfl

/-! ### Runs -/

/-- **A run records the words that are emitted on its way**, and nothing else. -/
theorem Evaluates.records {isNested : Bool} {signal : Signal} {running : Running}
    {place stop : Place} {trace : List Place} {outcome : Outcome}
    (h : Evaluates setting isNested signal running place trace outcome stop) :
    Records setting trace place.context.references stop.context.references := by
  induction h with
  | finish running c => exact .refl setting _
  | layout hbreak onward ih => exact ih
  | @literal _ _ char _ c _ _ _ _ _ _ ih =>
    have hpush := Edit.references_apply setting c
      (e := .pushText (String.singleton (setting.charset.translate char))) rfl
    rw [← hpush]
    exact ih
  | close running cs c => exact .cons_of_none rfl (.refl setting _)
  | plain step onward ih => exact step.records.append ih
  | block inner onward ihInner ih => exact .cons_of_none rfl (ihInner.append ih)
  | ifTrue htest test htrue hyes branch hafter onward ihTest ihBranch ih =>
    exact .cons_of_none rfl ((ihTest.append ihBranch).append ih)
  | ifFalse htest test hfalse hyes hskip hnone onward ihTest ih =>
    exact .cons_of_none rfl (ihTest.append ih)
  | ifElse htest test hfalse hyes hskip helse hno branch onward ihTest ihBranch ih =>
    exact .cons_of_none rfl ((ihTest.append ihBranch).append ih)
  | loopDone htest test hfalse hbody hskip onward ihTest ih =>
    exact .cons_of_none rfl (ihTest.append ih)
  | loopLeave htest test htrue hbody round hleave onward ihTest ihRound ih =>
    exact .cons_of_none rfl ((ihTest.append ihRound).append ih)
  | loopRound htest test htrue hbody round hgoOn again ihTest ihRound ih =>
    exact .cons_of_none rfl ((ihTest.append ihRound).append ih)
  | skipped hsignal hskip => exact .refl setting _
  | left running place hsignal => exact .refl setting _

theorem Runs.records {program : String} {trace : List Place}
    (h : Runs setting program c trace c') : Records setting trace c.references c'.references := by
  obtain ⟨outcome, rest, hrun⟩ := h
  exact hrun.records

theorem Tries.records {test : List Char} {trace : List Place} {found : Bool}
    (h : Tries setting test c trace found c') :
    Records setting trace c.references c'.references := by
  cases h with
  | whole hopen run => exact run.records
  | failed hopen run hfalse => exact run.records
  | found hopen run htrue hnone => exact run.records
  | acted hopen run htrue haction act => exact run.records.append act.records

/-- **A search records the words that are emitted on its way.** -/
theorem Searches.records {test : List Char} {count address : Nat} {matched total : UInt16}
    {trace : List Place} (h : Searches setting test count address matched c trace total c') :
    Records setting trace c.references c'.references := by
  induction h with
  | done address matched c => exact .refl setting _
  | next candidate onward ih => exact candidate.records.append ih

theorem RunsPattern.records {program : String} {trace : List Place}
    (h : RunsPattern setting program c trace c') :
    Records setting trace c.references c'.references := by
  obtain ⟨matched, hsearch⟩ := h
  exact hsearch.records

end Script
end Disassembly
