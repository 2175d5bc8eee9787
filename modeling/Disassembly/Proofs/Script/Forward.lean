/-
# Scripts are read forward

What is left of a script behind a construct is an end of what was left before it, whatever the
construct reads: operands, layout, the arguments of a routine, the rest of a line, or whole blocks
that are run or skipped. Behind a nested block it is what follows a `%)`, so a run of such a block
that ends well has read two characters at least (`block_suffix`).
-/

import Disassembly.Proofs.Script.Skipping

namespace Disassembly
namespace Script

namespace Source

variable {cs cs' rest : List Char}

/-- What is left behind text that was read is an end of the script. -/
theorem Reads.suffix (h : Reads cs cs') : cs' <:+ cs :=
  let ⟨text, _, htext⟩ := h
  ⟨text, htext.symm⟩

theorem skipLayoutAfter_suffix (mode : Layout) (cs : List Char) :
    skipLayoutAfter mode cs <:+ cs := by
  fun_induction skipLayoutAfter mode cs with
  | case1 => exact List.suffix_refl _
  | case2 c cs ih => exact ih.trans (List.suffix_cons c cs)
  | case3 mode c cs _ _ ih => exact ih.trans (List.suffix_cons c cs)
  | case4 mode c cs _ _ _ ih => exact ih.trans (List.suffix_cons c cs)
  | case5 => exact List.suffix_refl _

theorem skipLayout_suffix (cs : List Char) : skipLayout cs <:+ cs := skipLayoutAfter_suffix .text cs

/-- The bracket that opens the next block stands in the script. -/
theorem expectOpen_suffix {body : List Char} (h : expectOpen cs = .ok body) :
    '%' :: '(' :: body <:+ cs := by
  unfold expectOpen at h
  split at h
  · rename_i rest hrest
    obtain rfl := Except.ok.inj h
    exact hrest ▸ skipLayout_suffix cs
  · simp at h
  · simp at h

/-- The bracket that closes a block stands in the script. -/
theorem skipToCloseAfter_suffix {comment : Bool} {depth : Nat}
    (h : skipToCloseAfter comment depth cs = some rest) : '%' :: ')' :: rest <:+ cs := by
  fun_induction skipToCloseAfter comment depth cs with
  | case1 => simp at h
  | case2 depth c cs ih => exact (ih h).trans (List.suffix_cons c cs)
  | case3 => simp at h
  | case4 comment depth _ cs ih =>
    exact (ih h).trans ((List.suffix_cons '(' cs).trans (List.suffix_cons '%' _))
  | case5 => exact Option.some.inj h ▸ List.suffix_refl _
  | case6 comment _ cs depth _ ih =>
    exact (ih h).trans ((List.suffix_cons ')' cs).trans (List.suffix_cons '%' _))
  | case7 comment depth _ tag cs _ _ ih =>
    exact (ih h).trans ((List.suffix_cons tag cs).trans (List.suffix_cons '%' _))
  | case8 comment depth c cs _ _ ih => exact (ih h).trans (List.suffix_cons c cs)

theorem skipToClose_suffix (h : skipToClose cs = .ok rest) : '%' :: ')' :: rest <:+ cs := by
  unfold skipToClose at h
  split at h
  · exact Except.ok.inj h ▸ skipToCloseAfter_suffix ‹_›
  · simp at h

/-- What is left behind two characters is an end of the script, too. -/
theorem suffix_of_two {a b : Char} (h : a :: b :: rest <:+ cs) : rest <:+ cs :=
  ((List.suffix_cons b rest).trans (List.suffix_cons a _)).trans h

theorem length_add_two {a b : Char} (h : a :: b :: rest <:+ cs) : rest.length + 2 ≤ cs.length :=
  h.length_le

/-- A line break is read with the layout behind it. -/
theorem length_skipNewline {c : Char} (hbreak : isBreak c = true) (cs : List Char) :
    (skipNewline (c :: cs)).length ≤ cs.length := by
  rw [skipNewline, List.dropWhile_cons_of_pos hbreak]
  exact ((List.dropWhile_suffix _).trans (List.dropWhile_suffix _)).length_le

/-- A call is read up to the bracket behind its arguments. -/
theorem call_suffix {name arguments : String} (h : call cs = .ok (name, arguments, cs')) :
    cs' <:+ cs := by
  obtain ⟨⟨bracket, rest⟩, hnext, h₁⟩ := exists_ok_of_bind h
  dsimp only at h₁
  split at h₁
  · obtain ⟨_, hthrow, _⟩ := exists_ok_of_bind h₁
    exact absurd hthrow (by simp [throw, throwThe, MonadExceptOf.throw])
  · obtain ⟨⟨text, rest'⟩, htext, h₂⟩ := exists_ok_of_bind h₁
    obtain ⟨-, -, rfl⟩ : _ ∧ _ ∧ rest' = cs' := by simpa using Except.ok.inj h₂
    have hname : bracket :: rest <:+ cs := by
      rw [← next_eq_ok hnext]
      exact (List.dropWhile_suffix _).trans
        ((List.dropWhile_suffix _).trans (List.dropWhile_suffix _))
    rw [argumentText_eq_ok htext] at hname
    exact ((List.suffix_cons ')' rest').trans (List.suffix_append text _)).trans
      ((List.suffix_cons bracket _).trans hname)

end Source

open Source

variable {setting : Setting} {inner : Inner} {cs cs' text rest : List Char} {c c' : Context}
  {isNested : Bool} {running : Running}

/-! ### Constructs without blocks -/

theorem comment_suffix (h : comment setting cs c = .ok cs' c') : cs' <:+ cs := by
  obtain ⟨source, letter, kind, operands, text, rfl, -, -, hdrop, hend⟩ := comment_eq_ok h
  have htext : text <:+ source :: letter :: kind :: operands :=
    (reads_of_dropOperands hdrop).suffix.trans
      (List.suffix_append [source, letter, kind] operands)
  rcases hend with ⟨-, rfl⟩ | ⟨-, rfl⟩
  · exact htext
  · exact (List.dropWhile_suffix _).trans htext

theorem dataBlock_suffix (h : dataBlock setting cs c = .ok cs' c') : cs' <:+ cs := by
  obtain ⟨⟨first, rest⟩, c₁, hfirst, h₁⟩ := bind_eq_ok h
  obtain ⟨⟨last, rest₁⟩, c₂, hlast, h₂⟩ := bind_eq_ok h₁
  obtain ⟨⟨program, rest₂⟩, hblock, h₃⟩ := ofExcept_bind_eq_ok h₂
  obtain ⟨rfl, -⟩ := EStateM.Result.ok.inj h₃
  obtain ⟨body, hopen, hblock₁⟩ := exists_ok_of_bind hblock
  obtain ⟨rest₃, hskip, hblock₂⟩ := exists_ok_of_bind hblock₁
  obtain ⟨-, rfl⟩ := Prod.mk.inj (Except.ok.inj hblock₂)
  have hrange := (reads_of_value hfirst).trans (reads_of_value hlast)
  exact (suffix_of_two (skipToClose_suffix hskip)).trans
    ((suffix_of_two (expectOpen_suffix hopen)).trans hrange.suffix)

/-- A simple construct is read forward. -/
theorem simple_suffix {tag : Char} (h : simple setting tag cs c = .ok cs' c') : cs' <:+ cs := by
  generalize hpart : simple setting tag cs = part at h
  unfold simple at hpart
  split at hpart <;> subst hpart
  · exact (EStateM.Result.ok.inj h).1 ▸ List.suffix_refl _
  · exact (EStateM.Result.ok.inj h).1 ▸ List.dropWhile_suffix _
  · exact (reads_of_numberFormat h).suffix
  · exact (reads_of_number h).suffix
  · exact (reads_of_number h).suffix
  · exact (reads_of_address h).suffix
  · exact (reads_of_character h).suffix
  · exact (reads_of_float h).suffix
  · exact (reads_of_arithmetic h).suffix
  · exact (EStateM.Result.ok.inj h).1 ▸ List.suffix_refl _
  · exact (EStateM.Result.ok.inj h).1 ▸ List.suffix_refl _
  · exact (EStateM.Result.ok.inj h).1 ▸ List.suffix_refl _
  · exact (EStateM.Result.ok.inj h).1 ▸ List.suffix_refl _
  · exact comment_suffix h
  · exact dataBlock_suffix h
  · exact absurd h (by simp)

/-- A routine call is read forward. -/
theorem routineCall_suffix {running' : Running}
    (h : call setting running cs c = .ok (running', cs') c') : cs' <:+ cs := by
  obtain ⟨⟨name, arguments, rest⟩, hcall, h₁⟩ := ofExcept_bind_eq_ok h
  obtain ⟨truth, c₁, -, h₂⟩ := bind_eq_ok h₁
  have hrest : rest = cs' := by
    cases truth with
    | none => exact (ok_pair_inj h₂).2.1
    | some truth => exact (ok_pair_inj h₂).2.1
  exact hrest ▸ call_suffix hcall

/-! ### Constructs with blocks -/

theorem else_suffix {otherwise : List Char} (h : else? cs = some otherwise) : otherwise <:+ cs := by
  unfold else? at h
  split at h
  · rename_i rest hlayout
    obtain rfl := Option.some.inj h
    exact suffix_of_two (hlayout ▸ skipLayout_suffix cs)
  · exact absurd h (by simp)

theorem afterElse_suffix (h : afterElse cs = .ok rest) : rest <:+ cs := by
  unfold afterElse at h
  split at h
  · rename_i otherwise helse
    obtain ⟨body, hopen, hskip⟩ := exists_ok_of_bind h
    exact (suffix_of_two (skipToClose_suffix hskip)).trans
      ((suffix_of_two (expectOpen_suffix hopen)).trans (else_suffix helse))
  · exact Except.ok.inj h ▸ List.suffix_refl _

/-- The blocks inside a construct are read up to their brackets. -/
def ReadsBlocks (inner : Inner) : Prop :=
  ∀ {body rest : List Char} {c c' : Context} {outcome : Outcome},
    inner body c = .ok (outcome, rest) c' → '%' :: ')' :: rest <:+ body

section Blocks

variable (hinner : ReadsBlocks inner)
include hinner

/-- A block that is run, with its bracket still to be read. -/
theorem ReadsBlocks.suffix {body : List Char} {outcome : Outcome} (hopen : expectOpen cs = .ok body)
    (hrun : inner body c = .ok (outcome, rest) c') : rest <:+ cs :=
  (suffix_of_two (hinner hrun)).trans (suffix_of_two (expectOpen_suffix hopen))

theorem conditional_suffix {signal : Signal} (h : conditional inner cs c = .ok (signal, cs') c') :
    cs' <:+ cs := by
  obtain ⟨test, truth, rest, c₁, yes, hopen, hrun, hyes, hbranch⟩ := conditional_eq_ok h
  have htest := hinner.suffix hopen hrun
  cases htruth : truth.truth with
  | true =>
    rw [htruth, if_pos rfl] at hbranch
    obtain ⟨result, rest', hrun', -, hafter⟩ := hbranch
    exact (afterElse_suffix hafter).trans ((hinner.suffix hyes hrun').trans htest)
  | false =>
    rw [htruth, if_neg Bool.false_ne_true] at hbranch
    obtain ⟨rest', hskip, hbranch⟩ := hbranch
    have hrest : rest' <:+ cs := (suffix_of_two (skipToClose_suffix hskip)).trans
      ((suffix_of_two (expectOpen_suffix hyes)).trans htest)
    cases helse : else? rest' with
    | some otherwise =>
      simp only [helse] at hbranch
      obtain ⟨no, result, hno, hrun', -⟩ := hbranch
      exact (hinner.suffix hno hrun').trans ((else_suffix helse).trans hrest)
    | none =>
      simp only [helse] at hbranch
      exact hbranch.1 ▸ hrest

theorem loopTest_suffix {goOn : Bool} (h : loopTest inner cs c = .ok (goOn, cs') c') :
    cs' <:+ cs := by
  obtain ⟨test, outcome, rest, body, hopen, hrun, -, hbody, hend⟩ := loopTest_eq_ok h
  have hbody : body <:+ cs :=
    (suffix_of_two (expectOpen_suffix hbody)).trans (hinner.suffix hopen hrun)
  cases goOn with
  | true => exact hend ▸ hbody
  | false => exact (suffix_of_two (skipToClose_suffix hend)).trans hbody

/-- A loop goes back to its test, but ends behind its body. -/
theorem loop_suffix {rounds : Nat} (h : loop inner cs rounds c = .ok cs' c') : cs' <:+ cs := by
  induction rounds generalizing c with
  | zero =>
    obtain ⟨⟨goOn, rest⟩, c₁, htest, h⟩ := bind_eq_ok h
    cases goOn with
    | true => exact absurd h (by simp)
    | false => exact (EStateM.Result.ok.inj h).1 ▸ loopTest_suffix hinner htest
  | succ rounds ih =>
    obtain ⟨⟨goOn, rest⟩, c₁, htest, h⟩ := bind_eq_ok h
    have hrest := loopTest_suffix hinner htest
    cases goOn with
    | false => exact (EStateM.Result.ok.inj h).1 ▸ hrest
    | true =>
      obtain ⟨⟨result, rest'⟩, c₂, hround, h⟩ := bind_eq_ok h
      have hround := (suffix_of_two (hinner (inner_eq_ok.1 hround))).trans hrest
      simp only at h
      split at h
      · exact (EStateM.Result.ok.inj h).1 ▸ hround
      · exact ih h

/-- **A construct is read forward**, and a bracket that closes its block is one. -/
theorem construct_suffix {flow : Flow}
    (h : construct setting inner isNested running text c = .ok (flow, cs') c') :
    cs' <:+ text ∧ (flow = .close → text = ')' :: cs') := by
  have honward {r : Running} (h : cs' <:+ text) :
      cs' <:+ text ∧ (Flow.onward r = .close → text = ')' :: cs') := ⟨h, by simp⟩
  cases text with
  | nil => exact absurd h (by simp [construct])
  | cons tag cs =>
    have hcs := List.suffix_cons tag cs
    have hflow {signal : Signal} {r : Running} (h : cs' <:+ cs) :
        cs' <:+ tag :: cs ∧ (signal.flow r = .close → tag :: cs = ')' :: cs') :=
      ⟨h.trans hcs, by cases signal <;> simp [Signal.flow]⟩
    generalize hpart : construct setting inner isNested running (tag :: cs) = part at h
    simp only [construct] at hpart
    split at hpart <;> subst hpart
    · obtain ⟨⟨outcome, rest⟩, c₁, hrun, h₁⟩ := bind_eq_ok h
      obtain ⟨rfl, rfl, rfl⟩ := ok_pair_inj h₁
      exact hflow (suffix_of_two (hinner (inner_eq_ok.1 hrun)))
    · split at h
      · obtain ⟨rfl, rfl, rfl⟩ := ok_pair_inj h
        exact ⟨hcs, fun _ => rfl⟩
      · exact absurd h (by simp)
    · obtain ⟨⟨running', rest⟩, c₁, hrun, h₁⟩ := bind_eq_ok h
      obtain ⟨rfl, rfl, rfl⟩ := ok_pair_inj h₁
      exact honward ((reads_of_comparison (own_eq_ok.1 hrun)).suffix.trans hcs)
    · obtain ⟨⟨running', rest⟩, c₁, hrun, h₁⟩ := bind_eq_ok h
      obtain ⟨rfl, rfl, rfl⟩ := ok_pair_inj h₁
      exact honward ((routineCall_suffix (own_eq_ok.1 hrun)).trans hcs)
    · obtain ⟨⟨signal, rest⟩, c₁, hrun, h₁⟩ := bind_eq_ok h
      obtain ⟨rfl, rfl, rfl⟩ := ok_pair_inj h₁
      exact hflow (conditional_suffix hinner hrun)
    · obtain ⟨rest, c₁, hrun, h₁⟩ := bind_eq_ok h
      obtain ⟨rfl, rfl, rfl⟩ := ok_pair_inj h₁
      exact honward ((loop_suffix hinner hrun).trans hcs)
    · obtain ⟨rfl, rfl, rfl⟩ := ok_pair_inj h
      exact ⟨hcs, by simp⟩
    · obtain ⟨rfl, rfl, rfl⟩ := ok_pair_inj h
      exact ⟨hcs, by simp⟩
    · obtain ⟨rest, c₁, hrun, h₁⟩ := bind_eq_ok h
      obtain ⟨rfl, rfl, rfl⟩ := ok_pair_inj h₁
      exact honward ((simple_suffix (own_eq_ok.1 hrun)).trans hcs)

end Blocks

/-! ### Whole blocks -/

/-- What has been read last of a block that has ended: its bracket, if it is nested. -/
def closing (isNested : Bool) (rest : List Char) : List Char :=
  if isNested then '%' :: ')' :: rest else rest

theorem endEarly_suffix {program construct : List Char} {signal : Signal} {outcome : Outcome}
    (h : endEarly program construct isNested running signal cs c = .ok (outcome, rest) c') :
    closing isNested rest <:+ cs := by
  unfold endEarly at h
  cases isNested with
  | true =>
    rw [if_pos rfl] at h
    cases hskip : skipToClose cs with
    | ok rest' =>
      simp only [hskip] at h
      obtain ⟨-, rfl, -⟩ := ok_pair_inj h
      exact skipToClose_suffix hskip
    | error kind =>
      simp only [hskip] at h
      exact absurd h (by simp [Run.fail])
  | false =>
    rw [if_neg Bool.false_ne_true] at h
    obtain ⟨-, rfl, -⟩ := ok_pair_inj h
    exact List.suffix_refl _

/-- **A block is read forward**, up to its bracket if it is nested. The induction is on the steps,
which also bound how deep blocks are nested. -/
theorem block_suffix {program : List Char} {steps : Nat} {outcome : Outcome}
    (h : block setting program steps isNested running cs c = .ok (outcome, rest) c') :
    closing isNested rest <:+ cs := by
  induction steps generalizing isNested running cs c outcome rest c' with
  | zero => exact absurd h (by simp [block, Run.fail])
  | succ steps ih =>
    have hinner : ReadsBlocks (block setting program steps true {}) := by
      intro body rest c c' outcome hrun
      have hbody := ih hrun
      exact hbody
    cases cs with
    | nil =>
      cases isNested with
      | true => exact absurd h (by simp [block, Run.fail])
      | false =>
        obtain ⟨-, rfl, -⟩ := ok_pair_inj h
        exact List.suffix_refl _
    | cons char cs =>
      by_cases hpercent : char = '%'
      · subst hpercent
        have hcs := List.suffix_cons '%' cs
        rw [block_construct] at h
        split at h
        · exact absurd h (by simp)
        · rename_i running' cs' c₁ hrun
          have hread := construct_suffix hinner (located_eq_ok.1 hrun)
          exact (ih h).trans (hread.1.trans hcs)
        · rename_i cs' c₁ hrun
          have hread := construct_suffix hinner (located_eq_ok.1 hrun)
          obtain ⟨-, rfl, -⟩ := ok_pair_inj h
          rw [hread.2 rfl]
          cases isNested with
          | true => exact List.suffix_refl _
          | false => exact (List.suffix_cons ')' cs').trans (List.suffix_cons '%' _)
        · rename_i cs' c₁ hrun
          have hread := construct_suffix hinner (located_eq_ok.1 hrun)
          exact (endEarly_suffix h).trans (hread.1.trans hcs)
        · rename_i cs' c₁ hrun
          have hread := construct_suffix hinner (located_eq_ok.1 hrun)
          exact (endEarly_suffix h).trans (hread.1.trans hcs)
      · have hcs := List.suffix_cons char cs
        cases hbreak : isBreak char with
        | true =>
          rw [block, hbreak, if_pos rfl] at h
          exact (ih h).trans (reads_skipNewline _).suffix
        | false =>
          rw [block, hbreak, if_neg Bool.false_ne_true, if_neg hpercent,
            bind_ok (modify_apply _ _)] at h
          exact (ih h).trans hcs

/-- Blocks are read up to their brackets. -/
theorem readsBlocks_block (setting : Setting) (program : List Char) (steps : Nat) :
    ReadsBlocks (block setting program steps true {}) :=
  fun h => block_suffix h

end Script
end Disassembly
