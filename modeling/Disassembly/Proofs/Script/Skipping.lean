/-
# Running a block and skipping it read the same text

A block that does not run is skipped by a scanner that counts brackets and knows nothing of
constructs. It still comes to the place where a run of the block ends (`skipToClose_of_block`):
every construct leaves the scanner where it leaves the run (`Passes`). What a construct reads holds
no percent sign, except for brackets of blocks and comments, which the scanner knows, and for text
that is taken as it stands (`verbatim`): the arguments of a routine, and the rest of a line as the
text of a comment. There a percent sign means nothing to the run and something to the scanner.
-/

import Disassembly.Proofs.Script.Evaluation
import Mathlib.Data.List.TakeWhile

namespace Disassembly
namespace Script

namespace Source

variable {cs cs' cs'' : List Char}

/-- The scanner goes from one rest of a script to another, whatever blocks are open. -/
def Passes (cs cs' : List Char) : Prop :=
  ∀ depth, skipToCloseAfter false depth cs = skipToCloseAfter false depth cs'

theorem Passes.trans (h : Passes cs cs') (h' : Passes cs' cs'') : Passes cs cs'' :=
  fun depth => (h depth).trans (h' depth)

/-- A block is skipped to the same place from where the scanner passes. -/
theorem Passes.skipToClose_eq (h : Passes cs cs') : skipToClose cs = skipToClose cs' := by
  rw [skipToClose, h 0, ← skipToClose]

/-! ### One step of the scanner -/

theorem skipToCloseAfter_comment_cons (depth : Nat) (c : Char) (cs : List Char) :
    skipToCloseAfter true depth (c :: cs) = skipToCloseAfter (!isBreak c) depth cs := by
  rw [skipToCloseAfter.eq_def]
  rfl

theorem skipToCloseAfter_open (depth : Nat) (cs : List Char) :
    skipToCloseAfter false depth ('%' :: '(' :: cs) = skipToCloseAfter false (depth + 1) cs := by
  rw [skipToCloseAfter.eq_def]
  rfl

theorem skipToCloseAfter_close_succ (depth : Nat) (cs : List Char) :
    skipToCloseAfter false (depth + 1) ('%' :: ')' :: cs) = skipToCloseAfter false depth cs := by
  rw [skipToCloseAfter.eq_def]
  rfl

theorem skipToCloseAfter_tag {tag : Char} (hopen : tag ≠ '(') (hclose : tag ≠ ')') (depth : Nat)
    (cs : List Char) : skipToCloseAfter false depth ('%' :: tag :: cs) =
      skipToCloseAfter (tag = '\'') depth cs := by
  rw [skipToCloseAfter.eq_def]
  simp only [Bool.false_eq_true, if_false, if_true, hopen, hclose]

/-- A character that begins no construct is passed. -/
theorem passes_cons {c : Char} (hc : c ≠ '%') (cs : List Char) : Passes (c :: cs) cs := by
  intro depth
  rw [skipToCloseAfter.eq_def]
  simp only [Bool.false_eq_true, if_false, hc]

/-- A construct is passed by its tag, if it is neither a bracket nor a comment. -/
theorem passes_tag {tag : Char} (hopen : tag ≠ '(') (hclose : tag ≠ ')') (hcomment : tag ≠ '\'')
    (cs : List Char) : Passes ('%' :: tag :: cs) cs := by
  intro depth
  rw [skipToCloseAfter_tag hopen hclose, decide_eq_false hcomment]

/-- The bracket of a block ends the skipping of it. -/
theorem skipToClose_close (cs : List Char) : skipToClose ('%' :: ')' :: cs) = .ok cs := by
  rw [skipToClose, skipToCloseAfter.eq_def]
  rfl

/-! ### Layout and blocks -/

/-- A comment is over at the end of its line. -/
theorem skipToCloseAfter_comment (depth : Nat) (cs : List Char) :
    skipToCloseAfter true depth cs = skipToCloseAfter false depth (skipLine cs) := by
  induction cs with
  | nil => rfl
  | cons c cs ih =>
    rw [skipToCloseAfter_comment_cons, skipLine, List.dropWhile_cons]
    cases hbreak : isBreak c with
    | false => exact ih
    | true =>
      have hc : c ≠ '%' := by
        rintro rfl
        exact absurd hbreak (by decide)
      exact (passes_cons hc cs depth).symm

/-- A comment is passed. -/
theorem passes_comment (cs : List Char) : Passes ('%' :: '\'' :: cs) (skipLine cs) := by
  intro depth
  exact (skipToCloseAfter_tag (by decide) (by decide) depth cs).trans
    (skipToCloseAfter_comment depth cs)

/-- **Layout is passed**, and so is the rest of a comment that has begun. -/
theorem skipToCloseAfter_skipLayoutAfter (depth : Nat) (mode : Layout) (cs : List Char) :
    skipToCloseAfter (mode = .comment) depth cs =
      skipToCloseAfter false depth (skipLayoutAfter mode cs) := by
  fun_induction skipLayoutAfter mode cs with
  | case1 mode => rw [skipToCloseAfter, skipToCloseAfter]
  | case2 c cs ih =>
    refine (skipToCloseAfter_comment_cons depth c cs).trans (Eq.trans ?_ ih)
    cases isBreak c <;> rfl
  | case3 mode c cs hmode hlayout ih =>
    have hc : c ≠ '%' := by
      rintro rfl
      exact absurd hlayout (by simp [isBreak, isIndent])
    rw [decide_eq_false hmode, passes_cons hc, ← ih]
    rfl
  | case4 mode c cs hmode hlayout hcomment ih =>
    obtain ⟨rfl, hhead⟩ : c = '%' ∧ cs.head? = some '\'' := by simpa using hcomment
    obtain ⟨cs, rfl⟩ : ∃ cs', cs = '\'' :: cs' := by
      cases cs with
      | nil => simp at hhead
      | cons d cs => exact ⟨cs, by rw [Option.some.inj hhead]⟩
    rw [decide_eq_false hmode, passes_comment, ← ih]
    exact (skipToCloseAfter_comment depth ('\'' :: cs)).symm
  | case5 mode c cs hmode hlayout hcomment => rw [decide_eq_false hmode]

theorem passes_skipLayout (cs : List Char) : Passes cs (skipLayout cs) :=
  fun depth => skipToCloseAfter_skipLayoutAfter depth .text cs

/-- The bracket that opens the next block comes up behind layout. -/
theorem passes_of_expectOpen {body : List Char} (h : expectOpen cs = .ok body) :
    Passes cs ('%' :: '(' :: body) := by
  unfold expectOpen at h
  split at h
  · rename_i rest hrest
    obtain rfl := Except.ok.inj h
    exact hrest ▸ passes_skipLayout cs
  · simp at h
  · simp at h

/-- Blocks are closed one after the other, from the innermost one outwards. -/
theorem skipToCloseAfter_add (comment : Bool) (depth outer : Nat) (cs : List Char) :
    skipToCloseAfter comment (depth + (outer + 1)) cs =
      (skipToCloseAfter comment depth cs).bind (skipToCloseAfter false outer) := by
  fun_induction skipToCloseAfter comment depth cs with
  | case1 => rfl
  | case2 depth c cs ih => rw [skipToCloseAfter_comment_cons, ih]
  | case3 comment depth hcomment =>
    obtain rfl := Bool.eq_false_iff.2 hcomment
    rfl
  | case4 comment depth hcomment cs ih =>
    obtain rfl := Bool.eq_false_iff.2 hcomment
    rw [skipToCloseAfter_open, ← ih, Nat.add_right_comm]
  | case5 comment hcomment cs =>
    obtain rfl := Bool.eq_false_iff.2 hcomment
    rw [Nat.zero_add, skipToCloseAfter_close_succ]
    rfl
  | case6 comment hcomment cs depth _ ih =>
    obtain rfl := Bool.eq_false_iff.2 hcomment
    rw [Nat.succ_add, skipToCloseAfter_close_succ, ih]
  | case7 comment depth hcomment tag cs hopen hclose ih =>
    obtain rfl := Bool.eq_false_iff.2 hcomment
    rw [skipToCloseAfter_tag hopen hclose, ih]
  | case8 comment depth c cs hcomment hc ih =>
    obtain rfl := Bool.eq_false_iff.2 hcomment
    rw [passes_cons hc, ih]

/-- A block that can be skipped is passed. -/
theorem passes_block {rest : List Char} (h : skipToClose cs = .ok rest) :
    Passes ('%' :: '(' :: cs) rest := by
  intro depth
  have hclose : skipToCloseAfter false 0 cs = some rest := by
    unfold skipToClose at h
    split at h
    · rename_i hsome
      rw [hsome, Except.ok.inj h]
    · simp at h
  rw [skipToCloseAfter_open, ← Nat.zero_add (depth + 1), skipToCloseAfter_add, hclose]
  rfl

/-- Text without a percent sign has been read. -/
def Reads (cs cs' : List Char) : Prop := ∃ text, '%' ∉ text ∧ cs = text ++ cs'

theorem Reads.refl (cs : List Char) : Reads cs cs := ⟨[], List.not_mem_nil, rfl⟩

theorem Reads.trans (h : Reads cs cs') (h' : Reads cs' cs'') : Reads cs cs'' := by
  obtain ⟨text, htext, rfl⟩ := h
  obtain ⟨text', htext', rfl⟩ := h'
  refine ⟨text ++ text', fun hmem => ?_, (List.append_assoc _ _ _).symm⟩
  exact (List.mem_append.1 hmem).elim htext htext'

theorem Reads.cons {c : Char} (hc : c ≠ '%') (h : Reads cs cs') : Reads (c :: cs) cs' :=
  Reads.trans ⟨[c], by simpa using hc.symm, rfl⟩ h

/-- The scanner passes text without a percent sign. -/
theorem Reads.passes (h : Reads cs cs') : Passes cs cs' := by
  obtain ⟨text, htext, rfl⟩ := h
  induction text with
  | nil => exact fun depth => rfl
  | cons c text ih =>
    rw [List.mem_cons, not_or] at htext
    exact (passes_cons (Ne.symm htext.1) _).trans (ih htext.2)

/-- What is dropped from the front of a text has been read. -/
theorem reads_dropWhile {p : Char → Bool} (h : '%' ∉ cs.takeWhile p) :
    Reads cs (cs.dropWhile p) :=
  ⟨cs.takeWhile p, h, List.takeWhile_append_dropWhile.symm⟩

theorem reads_dropWhile_of_neg {p : Char → Bool} (hp : p '%' = false) (cs : List Char) :
    Reads cs (cs.dropWhile p) :=
  reads_dropWhile fun hmem => by
    have hpercent := List.mem_takeWhile_imp hmem
    exact absurd hpercent (by simp [hp])

theorem reads_skipNewline (cs : List Char) : Reads cs (skipNewline cs) :=
  (reads_dropWhile_of_neg (by decide) cs).trans (reads_dropWhile_of_neg (by decide) _)

theorem reads_skipIndent (cs : List Char) : Reads cs (skipIndent cs) :=
  reads_dropWhile_of_neg (by decide) cs

theorem next_eq_ok {c : Char} (h : next cs = .ok (c, cs')) : cs = c :: cs' := by
  cases cs with
  | nil => simp [next] at h
  | cons d cs =>
    obtain ⟨rfl, rfl⟩ := Prod.mk.inj (Except.ok.inj h)
    rfl

theorem reads_of_next {c : Char} (h : next cs = .ok (c, cs')) (hc : c ≠ '%') : Reads cs cs' :=
  next_eq_ok h ▸ .cons hc (.refl _)

theorem reads_of_hexAfter {value count n : Nat} (h : hexAfter value count cs = .ok (n, cs')) :
    Reads cs cs' := by
  induction count generalizing value cs with
  | zero =>
    obtain ⟨-, rfl⟩ := Prod.mk.inj (Except.ok.inj h)
    exact .refl _
  | succ count ih =>
    cases cs with
    | nil => simp [hexAfter] at h
    | cons c cs =>
      rw [hexAfter] at h
      split at h
      · rename_i d hd
        refine .cons ?_ (ih h)
        rintro rfl
        exact absurd hd (by simp [Numeral.hexValue?])
      · simp at h

/-- The arguments of a routine are the text up to the bracket behind them. -/
theorem argumentText_eq_ok {routine : String} {quoted : Bool} {text rest : List Char}
    (h : argumentText routine quoted cs = .ok (text, rest)) : cs = text ++ ')' :: rest := by
  fun_induction argumentText routine quoted cs generalizing text with
  | case1 => simp at h
  | case2 => simp at h
  | case3 quoted c hescape d cs ih =>
    obtain ⟨⟨text', rest'⟩, htext, heq⟩ := exists_ok_of_map h
    obtain ⟨rfl, rfl⟩ := Prod.mk.inj heq
    rw [ih htext]
    rfl
  | case4 quoted c cs hescape hclose =>
    obtain ⟨rfl, rfl⟩ := Prod.mk.inj (Except.ok.inj h)
    have hc : c = ')' := by simp at hclose; exact hclose.2
    rw [hc]
    rfl
  | case5 quoted c cs hescape hclose ih =>
    obtain ⟨⟨text', rest'⟩, htext, heq⟩ := exists_ok_of_map h
    obtain ⟨rfl, rfl⟩ := Prod.mk.inj heq
    rw [ih htext]
    rfl

/-- A call is passed if its arguments hold no percent sign. -/
theorem reads_of_call {name arguments : String} (h : call cs = .ok (name, arguments, cs'))
    (harguments : '%' ∉ arguments.toList) : Reads cs cs' := by
  obtain ⟨⟨bracket, rest⟩, hnext, h₁⟩ := exists_ok_of_bind h
  dsimp only at h₁
  split at h₁
  · obtain ⟨_, hthrow, _⟩ := exists_ok_of_bind h₁
    exact absurd hthrow (by simp [throw, throwThe, MonadExceptOf.throw])
  · rename_i hbracket
    obtain rfl := not_not.1 hbracket
    obtain ⟨⟨text, rest'⟩, htext, h₂⟩ := exists_ok_of_bind h₁
    obtain ⟨-, rfl, rfl⟩ : _ ∧ String.ofList text = arguments ∧ rest' = cs' := by
      simpa using Except.ok.inj h₂
    rw [String.toList_ofList] at harguments
    have hrest : Reads rest rest' := by
      refine ⟨text ++ [')'], by simpa using harguments, ?_⟩
      rw [argumentText_eq_ok htext, List.append_assoc]
      rfl
    have hname := reads_dropWhile_of_neg (p := isWord) (by decide) (skipIndent cs)
    exact (reads_skipIndent cs).trans (hname.trans ((reads_skipIndent _).trans
      ((reads_of_next hnext (by decide)).trans hrest)))

end Source

open Source

variable {setting : Setting} {cs cs' : List Char} {c c' : Context}

/-! ### What constructs read -/

theorem reads_of_operand {o : Operand} (h : Operand.read cs = .ok (o, cs')) : Reads cs cs' := by
  obtain ⟨⟨selector, rest⟩, hselector, h₁⟩ := exists_ok_of_bind h
  simp only at h₁
  split at h₁
  · obtain ⟨⟨literal, rest'⟩, hliteral, h₂⟩ := exists_ok_of_bind h₁
    obtain ⟨-, rfl⟩ := Prod.mk.inj (Except.ok.inj h₂)
    exact (reads_of_hexAfter hselector).trans (reads_of_hexAfter hliteral)
  · obtain ⟨-, rfl⟩ := Prod.mk.inj (Except.ok.inj h₁)
    exact reads_of_hexAfter hselector

/-- What is left behind a number of operands. -/
def dropOperands : Nat → List Char → Except ErrorKind (List Char)
  | 0, cs => .ok cs
  | count + 1, cs => do dropOperands count (← Operand.read cs).2

/-- How many operands a comment has, by the letter of its kind: a range, and a value unless it is a
plain comment. -/
def commentOperands (kind : Char) : Nat := if kind = 'C' then 2 else 3

/-- The text that a construct takes as it stands, whatever it holds: the arguments of a routine, and
the rest of the line behind the operands of a comment that has its text from there. -/
def verbatim : List Char → List Char
  | 'P' :: cs =>
    match Source.call cs with
    | .ok (_, arguments, _) => arguments.toList
    | .error _ => []
  | ';' :: 'R' :: _ :: kind :: cs =>
    match dropOperands (commentOperands kind) cs with
    | .ok text => text.takeWhile fun c => !isBreak c
    | .error _ => []
  | _ => []

theorem value_eq_ok {n : UInt16} (h : value setting cs c = .ok (n, cs') c') :
    ∃ o, Operand.read cs = .ok (o, cs') := by
  obtain ⟨⟨o, rest⟩, hread, h₁⟩ := ofExcept_bind_eq_ok h
  obtain ⟨n', c₁, -, h₂⟩ := bind_eq_ok h₁
  obtain ⟨-, rfl, -⟩ := ok_pair_inj h₂
  exact ⟨o, hread⟩

theorem reads_of_value {n : UInt16} (h : value setting cs c = .ok (n, cs') c') : Reads cs cs' :=
  let ⟨_, hread⟩ := value_eq_ok h
  reads_of_operand hread

theorem reads_of_number {width : Width} (h : number setting width cs c = .ok cs' c') :
    Reads cs cs' := by
  obtain ⟨⟨o, rest⟩, hread, h₁⟩ := ofExcept_bind_eq_ok h
  obtain ⟨n, c₁, -, h₂⟩ := bind_eq_ok h₁
  obtain ⟨rfl, -⟩ := EStateM.Result.ok.inj h₂
  exact reads_of_operand hread

theorem reads_of_address (h : address setting cs c = .ok cs' c') : Reads cs cs' := by
  obtain ⟨⟨o, rest⟩, hread, h₁⟩ := ofExcept_bind_eq_ok h
  obtain ⟨n, c₁, -, h₂⟩ := bind_eq_ok h₁
  obtain ⟨rfl, -⟩ := EStateM.Result.ok.inj h₂
  exact reads_of_operand hread

theorem reads_of_character (h : character setting cs c = .ok cs' c') : Reads cs cs' := by
  obtain ⟨⟨o, rest⟩, hread, h₁⟩ := ofExcept_bind_eq_ok h
  obtain ⟨n, c₁, -, h₂⟩ := bind_eq_ok h₁
  have hrest : rest = cs' := by
    cases hglyph : setting.charset.glyph n.toUInt8 <;> simp only [hglyph] at h₂ <;>
      exact (EStateM.Result.ok.inj h₂).1
  exact hrest ▸ reads_of_operand hread

theorem reads_of_float (h : simple setting 'G' cs c = .ok cs' c') : Reads cs cs' := by
  obtain ⟨⟨o, rest⟩, hread, h₁⟩ := ofExcept_bind_eq_ok h
  obtain ⟨text, c₁, -, h₂⟩ := bind_eq_ok h₁
  obtain ⟨rfl, -⟩ := EStateM.Result.ok.inj h₂
  exact reads_of_operand hread

theorem reads_of_numberFormat (h : numberFormat setting cs c = .ok cs' c') : Reads cs cs' := by
  obtain ⟨⟨bits, rest⟩, hread, h₁⟩ := ofExcept_bind_eq_ok h
  obtain ⟨rfl, -⟩ := EStateM.Result.ok.inj h₁
  exact reads_of_hexAfter hread

theorem reads_of_arithmetic (h : arithmetic setting cs c = .ok cs' c') : Reads cs cs' := by
  obtain ⟨⟨operation, rest⟩, hoperation, h₁⟩ := ofExcept_bind_eq_ok h
  obtain ⟨⟨slot, rest₁⟩, hslot, h₂⟩ := ofExcept_bind_eq_ok h₁
  refine (reads_of_hexAfter hoperation).trans ((reads_of_hexAfter hslot).trans ?_)
  by_cases hknown : 8 < operation
  · simp [hknown, bind_apply] at h₂
  · simp only [hknown, if_false] at h₂
    obtain ⟨⟨a, rest₂⟩, c₁, ha, h₃⟩ := bind_eq_ok h₂
    by_cases hone : operation = 0
    · simp only [hone, if_true] at h₃
      obtain ⟨-, c₂, -, h₄⟩ := bind_eq_ok h₃
      obtain ⟨rfl, -⟩ := EStateM.Result.ok.inj h₄
      exact reads_of_value ha
    · simp only [hone, if_false] at h₃
      obtain ⟨⟨b, rest₃⟩, c₂, hb, h₄⟩ := bind_eq_ok h₃
      refine (reads_of_value ha).trans ?_
      cases hresult : arithmeticResult? operation a b with
      | none => simp [hresult, bind_apply] at h₄
      | some result =>
        simp only [hresult] at h₄
        obtain ⟨-, c₃, -, h₅⟩ := bind_eq_ok h₄
        obtain ⟨rfl, -⟩ := EStateM.Result.ok.inj h₅
        exact reads_of_value hb

theorem reads_of_dropOperands {count : Nat} (h : dropOperands count cs = .ok cs') : Reads cs cs' := by
  induction count generalizing cs with
  | zero => exact Except.ok.inj h ▸ .refl _
  | succ count ih =>
    obtain ⟨⟨o, rest⟩, hread, h₁⟩ := exists_ok_of_bind h
    exact (reads_of_operand hread).trans (ih h₁)

theorem dropOperands_succ {count : Nat} {rest : List Char} {n : UInt16}
    (h : value setting cs c = .ok (n, rest) c') :
    dropOperands (count + 1) cs = dropOperands count rest := by
  obtain ⟨o, hread⟩ := value_eq_ok h
  rw [dropOperands, hread]
  rfl

/-- The text of a comment is behind its operands, unless it is the line under construction. -/
theorem commentText_eq_ok {source : Char} {text : String}
    (h : commentText source cs c = .ok (text, cs') c') :
    (source = 'L' ∧ cs' = cs) ∨ (source = 'R' ∧ cs' = skipLine cs) := by
  generalize hpart : commentText source cs = part at h
  unfold commentText at hpart
  split at hpart <;> subst hpart
  · obtain ⟨-, rfl, -⟩ := ok_pair_inj h
    exact .inl ⟨rfl, rfl⟩
  · obtain ⟨-, rfl, -⟩ := ok_pair_inj h
    exact .inr ⟨rfl, rfl⟩
  · simp at h

/-- The letter of a kind of comment tells how many operands there are. -/
theorem commentOperands_of_ofLetter {letter : Char} {kind : CommentKind}
    (h : CommentKind.ofLetter? letter = some kind) : letter ≠ '%' ∧ commentOperands letter =
      match kind with
      | .plain => 2
      | .reference _ | .displacement _ => 3 := by
  unfold CommentKind.ofLetter? at h
  split at h
  all_goals first
    | obtain rfl := Option.some.inj h
      exact ⟨by decide, rfl⟩
    | exact absurd h (by simp)

/-- What a comment reads: three letters, its operands and its text. -/
theorem comment_eq_ok (h : comment setting cs c = .ok cs' c') :
    ∃ source letter kind operands text, cs = source :: letter :: kind :: operands ∧
      letter ≠ '%' ∧ kind ≠ '%' ∧ dropOperands (commentOperands kind) operands = .ok text ∧
      ((source = 'L' ∧ cs' = text) ∨ (source = 'R' ∧ cs' = skipLine text)) := by
  obtain ⟨⟨source, rest⟩, hsource, h₁⟩ := ofExcept_bind_eq_ok h
  obtain ⟨⟨letter, rest₁⟩, hletter, h₂⟩ := ofExcept_bind_eq_ok h₁
  cases hposition : Position.ofLetter? letter with
  | none => exact absurd h₂ (by simp [hposition, bind_apply])
  | some position =>
    have hletter' : letter ≠ '%' := by
      rintro rfl
      exact absurd hposition (by simp [show Position.ofLetter? '%' = none by decide])
    simp only [hposition, pure_bind] at h₂
    obtain ⟨⟨kindLetter, rest₂⟩, hkind, h₃⟩ := ofExcept_bind_eq_ok h₂
    obtain ⟨⟨first, rest₃⟩, c₁, hfirst, h₄⟩ := bind_eq_ok h₃
    obtain ⟨⟨last, rest₄⟩, c₂, hlast, h₅⟩ := bind_eq_ok h₄
    have hrange (count : Nat) : dropOperands (count + 2) rest₂ = dropOperands count rest₄ := by
      rw [dropOperands_succ hfirst, dropOperands_succ hlast]
    rw [next_eq_ok hsource, next_eq_ok hletter, next_eq_ok hkind]
    cases hof : CommentKind.ofLetter? kindLetter with
    | none => exact absurd h₅ (by simp [hof])
    | some kind =>
      simp only [hof] at h₅
      obtain ⟨hkindLetter, hcount⟩ := commentOperands_of_ofLetter hof
      cases kind with
      | plain =>
        obtain ⟨⟨text, rest₅⟩, c₃, htext, h₆⟩ := bind_eq_ok h₅
        obtain ⟨rfl, -⟩ := EStateM.Result.ok.inj h₆
        refine ⟨_, _, _, _, rest₄, rfl, hletter', hkindLetter, ?_, commentText_eq_ok htext⟩
        rw [hcount]
        exact hrange 0
      | reference _ | displacement _ =>
        obtain ⟨⟨n, rest₅⟩, c₃, hn, h₆⟩ := bind_eq_ok h₅
        obtain ⟨⟨text, rest₆⟩, c₄, htext, h₇⟩ := bind_eq_ok h₆
        obtain ⟨rfl, -⟩ := EStateM.Result.ok.inj h₇
        refine ⟨_, _, _, _, rest₅, rfl, hletter', hkindLetter, ?_, commentText_eq_ok htext⟩
        rw [hcount]
        exact (hrange 1).trans (dropOperands_succ hn)

/-- A comment is passed if its text holds no percent sign. -/
theorem reads_of_comment (h : comment setting cs c = .ok cs' c')
    (htext : '%' ∉ verbatim (';' :: cs)) : Reads cs cs' := by
  obtain ⟨source, letter, kind, operands, text, rfl, hletter, hkind, hdrop, hend⟩ := comment_eq_ok h
  have hoperands := (reads_of_dropOperands hdrop).cons hkind |>.cons hletter
  rcases hend with ⟨rfl, rfl⟩ | ⟨rfl, rfl⟩
  · exact hoperands.cons (by decide)
  · simp only [verbatim, hdrop] at htext
    exact (hoperands.cons (by decide)).trans (reads_dropWhile htext)

/-- A data block directive is passed with the block in it. -/
theorem passes_of_dataBlock (h : dataBlock setting cs c = .ok cs' c') : Passes cs cs' := by
  obtain ⟨⟨first, rest⟩, c₁, hfirst, h₁⟩ := bind_eq_ok h
  obtain ⟨⟨last, rest₁⟩, c₂, hlast, h₂⟩ := bind_eq_ok h₁
  obtain ⟨⟨program, rest₂⟩, hblock, h₃⟩ := ofExcept_bind_eq_ok h₂
  obtain ⟨rfl, -⟩ := EStateM.Result.ok.inj h₃
  obtain ⟨body, hopen, hblock₁⟩ := exists_ok_of_bind hblock
  obtain ⟨rest₃, hskip, hblock₂⟩ := exists_ok_of_bind hblock₁
  obtain ⟨-, rfl⟩ := Prod.mk.inj (Except.ok.inj hblock₂)
  have hrange := (reads_of_value hfirst).trans (reads_of_value hlast)
  exact hrange.passes.trans ((passes_of_expectOpen hopen).trans (passes_block hskip))

theorem reads_of_combinator {way : Combinator} (h : combinator cs = .ok (way, cs')) :
    Reads cs cs' := by
  obtain ⟨⟨letter, rest⟩, hletter, h₁⟩ := exists_ok_of_bind h
  have hpercent : letter ≠ '%' := by
    rintro rfl
    exact absurd h₁ (by simp [throw, throwThe, MonadExceptOf.throw])
  refine (reads_of_next hletter hpercent).trans ?_
  dsimp only at h₁
  split at h₁
  all_goals first
    | obtain ⟨-, rfl⟩ := Prod.mk.inj (Except.ok.inj h₁)
      exact .refl _
    | exact absurd h₁ (by simp [throw, throwThe, MonadExceptOf.throw])

/-- No letter of a comparison is a percent sign. -/
theorem Relation.ne_percent_of_ofName {first second : Char} {relation : Relation}
    (h : Relation.ofName? first second = some relation) : first ≠ '%' ∧ second ≠ '%' := by
  unfold Relation.ofName? at h
  split at h
  all_goals first
    | exact ⟨by decide, by decide⟩
    | exact absurd h (by simp)

theorem reads_of_relation {first : Char} {r : Relation} {a b : Operand}
    (h : relation first cs = .ok (r, a, b, cs')) : first ≠ '%' ∧ Reads cs cs' := by
  obtain ⟨⟨second, rest⟩, hsecond, h₁⟩ := exists_ok_of_bind h
  dsimp only at h₁
  split at h₁
  · exact absurd h₁ (by simp [throw, throwThe, MonadExceptOf.throw])
  · rename_i hname
    obtain ⟨hfirst, hpercent⟩ := Relation.ne_percent_of_ofName hname
    obtain ⟨⟨x, rest₁⟩, hx, h₂⟩ := exists_ok_of_bind h₁
    obtain ⟨⟨y, rest₂⟩, hy, h₃⟩ := exists_ok_of_bind h₂
    obtain ⟨-, -, -, rfl⟩ : _ ∧ _ ∧ _ ∧ rest₂ = cs' := by simpa using Except.ok.inj h₃
    exact ⟨hfirst, (reads_of_next hsecond hpercent).trans
      ((reads_of_operand hx).trans (reads_of_operand hy))⟩

theorem reads_of_comparison {running running' : Running}
    (h : comparison setting running cs c = .ok (running', cs') c') : Reads cs cs' := by
  obtain ⟨⟨first, rest⟩, hfirst, h₁⟩ := ofExcept_bind_eq_ok h
  by_cases hcombine : first = 'B'
  · simp only [hcombine, if_true] at h₁
    obtain ⟨⟨way, rest₁⟩, hway, h₂⟩ := ofExcept_bind_eq_ok h₁
    obtain ⟨-, rfl, -⟩ := ok_pair_inj h₂
    exact (reads_of_next hfirst (by rw [hcombine]; decide)).trans (reads_of_combinator hway)
  · simp only [hcombine, if_false] at h₁
    obtain ⟨⟨r, a, b, rest₁⟩, hrelation, h₂⟩ := ofExcept_bind_eq_ok h₁
    obtain ⟨hpercent, hoperands⟩ := reads_of_relation hrelation
    have hread := (reads_of_next hfirst hpercent).trans hoperands
    cases hdecided : running.decided with
    | true =>
      simp only [hdecided, if_true] at h₂
      obtain ⟨-, rfl, -⟩ := ok_pair_inj h₂
      exact hread
    | false =>
      simp only [hdecided, Bool.false_eq_true, if_false] at h₂
      obtain ⟨x, c₁, -, h₃⟩ := bind_eq_ok h₂
      obtain ⟨y, c₂, -, h₄⟩ := bind_eq_ok h₃
      obtain ⟨-, rfl, -⟩ := ok_pair_inj h₄
      exact hread

/-- A routine call is passed if the arguments hold no percent sign. -/
theorem reads_of_routineCall {running running' : Running}
    (h : call setting running cs c = .ok (running', cs') c')
    (harguments : '%' ∉ verbatim ('P' :: cs)) : Reads cs cs' := by
  obtain ⟨⟨name, arguments, rest⟩, hcall, h₁⟩ := ofExcept_bind_eq_ok h
  simp only [verbatim, hcall] at harguments
  obtain ⟨truth, c₁, -, h₂⟩ := bind_eq_ok h₁
  have hrest : rest = cs' := by
    cases truth with
    | none => exact (ok_pair_inj h₂).2.1
    | some truth => exact (ok_pair_inj h₂).2.1
  exact hrest ▸ reads_of_call hcall harguments

/-- A construct that reads no percent sign is passed. -/
theorem passes_of_reads {tag : Char} (htag : tag ≠ '(' ∧ tag ≠ ')' ∧ tag ≠ '\'')
    (h : Reads cs cs') : Passes ('%' :: tag :: cs) cs' :=
  (passes_tag htag.1 htag.2.1 htag.2.2 cs).trans h.passes

/-- **A simple construct is passed**, if it is no comment with a percent sign in its text. -/
theorem passes_of_simple {tag : Char} (h : simple setting tag cs c = .ok cs' c')
    (htext : '%' ∉ verbatim (tag :: cs)) : Passes ('%' :: tag :: cs) cs' := by
  generalize hpart : simple setting tag cs = part at h
  unfold simple at hpart
  split at hpart <;> subst hpart
  · exact passes_of_reads (by decide) ((EStateM.Result.ok.inj h).1 ▸ .refl cs)
  · exact (EStateM.Result.ok.inj h).1 ▸ passes_comment cs
  · exact passes_of_reads (by decide) (reads_of_numberFormat h)
  · exact passes_of_reads (by decide) (reads_of_number h)
  · exact passes_of_reads (by decide) (reads_of_number h)
  · exact passes_of_reads (by decide) (reads_of_address h)
  · exact passes_of_reads (by decide) (reads_of_character h)
  · exact passes_of_reads (by decide) (reads_of_float h)
  · exact passes_of_reads (by decide) (reads_of_arithmetic h)
  · exact passes_of_reads (by decide) ((EStateM.Result.ok.inj h).1 ▸ .refl cs)
  · exact passes_of_reads (by decide) ((EStateM.Result.ok.inj h).1 ▸ .refl cs)
  · exact passes_of_reads (by decide) ((EStateM.Result.ok.inj h).1 ▸ .refl cs)
  · exact passes_of_reads (by decide) ((EStateM.Result.ok.inj h).1 ▸ .refl cs)
  · exact passes_of_reads (by decide) (reads_of_comment h htext)
  · exact (passes_of_reads (by decide) (.refl cs)).trans (passes_of_dataBlock h)
  · exact absurd h (by simp)

/-- A construct without blocks is passed, if the text that it takes as it stands holds no percent
sign. -/
theorem Plain.passes {running running' : Running} {signal : Signal} {place place' : Place}
    (h : Plain setting running place signal running' place')
    (htext : '%' ∉ verbatim place.rest) : Passes ('%' :: place.rest) place'.rest := by
  cases h with
  | compare h => exact passes_of_reads (by decide) (reads_of_comparison h)
  | call h => exact passes_of_reads (by decide) (reads_of_routineCall h htext)
  | leave cs c => exact passes_of_reads (by decide) (.refl cs)
  | again cs c => exact passes_of_reads (by decide) (.refl cs)
  | simple h => exact passes_of_simple h htext

/-! ### Whole blocks -/

/-- A block that can be skipped is passed with the layout before it. -/
theorem passes_nested {body rest : List Char} (hopen : expectOpen cs = .ok body)
    (hskip : skipToClose body = .ok rest) : Passes cs rest :=
  (passes_of_expectOpen hopen).trans (passes_block hskip)

/-- A construct that begins with a block is passed with that block. -/
theorem passes_tag_nested (tag : Char) {body rest : List Char}
    (htag : tag ≠ '(' ∧ tag ≠ ')' ∧ tag ≠ '\'') (hopen : expectOpen cs = .ok body)
    (hskip : skipToClose body = .ok rest) : Passes ('%' :: tag :: cs) rest :=
  (passes_of_reads htag (.refl cs)).trans (passes_nested hopen hskip)

theorem passes_of_else {otherwise : List Char} (h : else? cs = some otherwise) :
    Passes cs otherwise := by
  unfold else? at h
  split at h
  · rename_i rest hlayout
    obtain rfl := Option.some.inj h
    have hrest := passes_skipLayout cs
    rw [hlayout] at hrest
    exact hrest.trans (passes_of_reads (by decide) (.refl _))
  · exact absurd h (by simp)

theorem passes_of_afterElse {rest : List Char} (h : afterElse cs = .ok rest) : Passes cs rest := by
  unfold afterElse at h
  split at h
  · rename_i otherwise helse
    obtain ⟨body, hopen, hskip⟩ := exists_ok_of_bind h
    exact (passes_of_else helse).trans (passes_nested hopen hskip)
  · exact Except.ok.inj h ▸ fun _ => rfl

/-- **A run of a nested block ends where skipping the block ends**, if no construct on the way takes a
percent sign as it stands. The induction is on the rules of runs; what is left of a block after the
construct at hand is skipped to the same place as the whole. -/
theorem Evaluates.skipToClose_eq {isNested : Bool} {signal : Signal} {running : Running}
    {place stop : Place} {trace : List Place} {outcome : Outcome}
    (h : Evaluates setting isNested signal running place trace outcome stop)
    (hnested : isNested = true) (htext : ∀ v ∈ trace, '%' ∉ verbatim v.rest) :
    skipToClose place.rest = .ok stop.rest := by
  induction h with
  | finish => exact absurd hnested (by decide)
  | layout hbreak onward ih =>
    rw [← ih hnested htext]
    exact (reads_skipNewline _).passes.skipToClose_eq
  | literal hbreak hpercent onward ih =>
    rw [← ih hnested htext]
    exact (passes_cons hpercent _).skipToClose_eq
  | close running cs c => exact skipToClose_close cs
  | plain step onward ih =>
    rw [List.forall_mem_cons] at htext
    rw [← ih hnested htext.2]
    exact (step.passes htext.1).skipToClose_eq
  | block inner onward ihInner ih =>
    simp only [List.forall_mem_cons, List.forall_mem_append] at htext
    obtain ⟨-, hwithin, htrace⟩ := htext
    rw [← ih hnested htrace]
    exact (passes_block (ihInner rfl hwithin)).skipToClose_eq
  | ifTrue htest test htrue hyes branch hafter onward ihTest ihBranch ih =>
    simp only [List.forall_mem_cons, List.forall_mem_append] at htext
    obtain ⟨-, ⟨hwithin, hwithin'⟩, htrace⟩ := htext
    rw [← ih hnested htrace]
    have htested := passes_tag_nested 'I' (by decide) htest (ihTest rfl hwithin)
    have htaken := passes_nested hyes (ihBranch rfl hwithin')
    exact (htested.trans (htaken.trans (passes_of_afterElse hafter))).skipToClose_eq
  | ifFalse htest test hfalse hyes hskip hnone onward ihTest ih =>
    simp only [List.forall_mem_cons, List.forall_mem_append] at htext
    obtain ⟨-, hwithin, htrace⟩ := htext
    rw [← ih hnested htrace]
    have htested := passes_tag_nested 'I' (by decide) htest (ihTest rfl hwithin)
    exact (htested.trans (passes_nested hyes hskip)).skipToClose_eq
  | ifElse htest test hfalse hyes hskip helse hno branch onward ihTest ihBranch ih =>
    simp only [List.forall_mem_cons, List.forall_mem_append] at htext
    obtain ⟨-, ⟨hwithin, hwithin'⟩, htrace⟩ := htext
    rw [← ih hnested htrace]
    have htested := passes_tag_nested 'I' (by decide) htest (ihTest rfl hwithin)
    have hskipped := passes_nested hyes hskip
    have htaken := (passes_of_else helse).trans (passes_nested hno (ihBranch rfl hwithin'))
    exact (htested.trans (hskipped.trans htaken)).skipToClose_eq
  | loopDone htest test hfalse hbody hskip onward ihTest ih =>
    simp only [List.forall_mem_cons, List.forall_mem_append] at htext
    obtain ⟨-, hwithin, htrace⟩ := htext
    rw [← ih hnested htrace]
    have htested := passes_tag_nested 'L' (by decide) htest (ihTest rfl hwithin)
    exact (htested.trans (passes_nested hbody hskip)).skipToClose_eq
  | loopLeave htest test htrue hbody round hleave onward ihTest ihRound ih =>
    simp only [List.forall_mem_cons, List.forall_mem_append] at htext
    obtain ⟨-, ⟨hwithin, hwithin'⟩, htrace⟩ := htext
    rw [← ih hnested htrace]
    have htested := passes_tag_nested 'L' (by decide) htest (ihTest rfl hwithin)
    exact (htested.trans (passes_nested hbody (ihRound rfl hwithin'))).skipToClose_eq
  | loopRound htest test htrue hbody round hgoOn again ihTest ihRound ih =>
    simp only [List.forall_mem_cons, List.forall_mem_append] at htext
    exact ih hnested htext.2.2
  | skipped hsignal hskip => exact hskip
  | left => exact absurd hnested (by decide)

/-- **Running a nested block and skipping it end at the same place.** A run of a block that ends
well comes to constructs by the rules, and skipping the block ends where the run ended if none of
them takes a percent sign as it stands. -/
theorem skipToClose_of_block {program rest : List Char} {steps : Nat} {running : Running}
    {outcome : Outcome} (h : block setting program steps true running cs c = .ok (outcome, rest) c') :
    (∃ trace, Evaluates setting true .onward running ⟨cs, c⟩ trace outcome ⟨rest, c'⟩) ∧
      ∀ trace, Evaluates setting true .onward running ⟨cs, c⟩ trace outcome ⟨rest, c'⟩ →
        (∀ v ∈ trace, '%' ∉ verbatim v.rest) → skipToClose cs = .ok rest :=
  ⟨evaluates_of_block h, fun _ hrun htext => hrun.skipToClose_eq rfl htext⟩

/-- A script over one byte. -/
def byteSample : Setting :=
  ⟨⟨#[0x00], 0, 0x8000, 1, by decide, by decide⟩, {}, Spectrum.charset, Spectrum.floats⟩

/-- A block that leaves a loop from inside a further block, with brackets in a comment behind. -/
def leaveSample : List Char :=
  ['%', '(', 'x', '%', 'Y', 'y', '%', ')', '%', '\'', '%', ')', '\n', '%', '%', '%', ')', 'z']

/-- The block is left at its end, two levels up, by the run and by the scanner. -/
theorem skipToClose_of_block_leaveSample :
    ∃ c', block byteSample leaveSample 9 true {} leaveSample
        (.start byteSample (.ofList []) ∅ 0x8000 0x8000) = .ok (⟨true, .leave⟩, ['z']) c' ∧
      skipToClose leaveSample = .ok ['z'] := by
  have h : block byteSample leaveSample 9 true {} leaveSample
      (.start byteSample (.ofList []) ∅ 0x8000 0x8000) = .ok (⟨true, .leave⟩, ['z'])
        ((Context.start byteSample (.ofList []) ∅ 0x8000 0x8000).pushChar byteSample
          (byteSample.charset.translate 'x')) := by
    rfl
  refine ⟨_, h, (skipToClose_of_block h).2 _ (.block (.literal (by decide) (by decide)
    (.plain (.leave _ _ _) (.skipped (by decide) rfl))) (.skipped (by decide) rfl)) ?_⟩
  decide

end Script
end Disassembly
