/-
# Layout in front of a pattern program

A pattern program may have lines of layout in front of it: blanks, comments and line breaks. Whether
the program begins with a block, which makes it a test with an action behind it, is decided behind
the layout that is skipped there: line breaks and comments with the blanks that follow breaks, and
then blanks once more. So lines of layout make no difference as long as the first of them is not
indented. Behind an indented one the layout is left standing, and all of the program is a test that
is run to its end at every address (`runPattern_layout`).

Errors have their places in the program with the layout in front, so they are compared without line
and column (`Alike`). Otherwise two runs that take the same turns give the same, whatever programs
they are read from (`Settles.alike`).
-/

import Disassembly.Proofs.Script.Turns
import Disassembly.Proofs.Script.Frame

namespace Disassembly
namespace Script

open Source (isBreak isIndent skipNewline skipLayout skipLayoutAfter skipIndent skipLine)

/-! ### Runs that take the same turns -/

/-- Errors that agree but for their line and column. -/
def Error.Alike (e e' : Error) : Prop :=
  e.kind = e'.kind ∧ e.address = e'.address ∧ e.snippet = e'.snippet

/-- Results that agree but for the line and column of an error. -/
def Alike {α : Type} : EStateM.Result Error Context α → EStateM.Result Error Context α → Prop
  | .ok a c, .ok a' c' => a = a' ∧ c = c'
  | .error e c, .error e' c' => e.Alike e' ∧ c = c'
  | _, _ => False

theorem Alike.ending_eq {α : Type} {r r' : EStateM.Result Error Context α} (h : Alike r r') :
    ending r = ending r' := by
  cases r with
  | ok a c =>
    cases r' with
    | ok a' c' => exact h.2
    | error e' c' => exact h.elim
  | error e c =>
    cases r' with
    | ok a' c' => exact h.elim
    | error e' c' => exact h.2

namespace Stage

variable {setting : Setting} {program program' : List Char} {s t : Stage} {e e' : Error}
  {c c' : Context}

/-- A run that fails goes no further. -/
theorem Fails.next_eq (h : Fails setting program t e c) : t.next setting = none := by
  cases h with
  | failed kind construct => rfl
  | @hangs stack block cs c c' hcall =>
    show (if neverReturns (call setting block.running cs c) then none else some _) = none
    rw [neverReturns_iff.2 ⟨_, hcall⟩, if_pos rfl]

/-- Errors at the same stage agree, whatever program they are placed in. -/
theorem Fails.alike (h : Fails setting program t e c) (h' : Fails setting program' t e' c') :
    e.Alike e' ∧ c = c' := by
  cases h with
  | failed kind construct =>
    cases h'
    exact ⟨⟨rfl, rfl, rfl⟩, rfl⟩
  | hangs hcall =>
    cases h' with
    | hangs hcall' =>
      obtain ⟨-, rfl⟩ := EStateM.Result.error.inj (hcall.symm.trans hcall')
      exact ⟨⟨rfl, rfl, rfl⟩, rfl⟩

/-- Turns from one stage have one end, whatever programs their results are told for. -/
theorem Settles.same_end {α : Type} {verdict : α → Verdict} {r r' : EStateM.Result Error Context α}
    (h : Settles setting program s (fun a c => .done (verdict a) c) r)
    (h' : Settles setting program' s (fun a c => .done (verdict a) c) r') :
    (∃ a a' c, r = .ok a c ∧ r' = .ok a' c ∧ verdict a = verdict a') ∨
      ∃ t e e' c c', r = .error e c ∧ r' = .error e' c' ∧ Fails setting program t e c ∧
        Fails setting program' t e' c' := by
  cases r with
  | ok a c =>
    obtain ⟨path, hpath⟩ := h
    cases r' with
    | ok a' c' =>
      obtain ⟨path', hpath'⟩ := h'
      obtain ⟨hverdict, rfl⟩ := Stage.done.inj (hpath.end_unique rfl hpath' rfl)
      exact .inl ⟨a, a', c, rfl, rfl, hverdict⟩
    | error e' c' =>
      obtain ⟨t, ⟨path', hpath'⟩, hfails⟩ := h'
      obtain rfl := hpath.end_unique rfl hpath' hfails.next_eq
      cases hfails
  | error e c =>
    obtain ⟨t, ⟨path, hpath⟩, hfails⟩ := h
    cases r' with
    | ok a' c' =>
      obtain ⟨path', hpath'⟩ := h'
      obtain rfl := hpath.end_unique hfails.next_eq hpath' rfl
      cases hfails
    | error e' c' =>
      obtain ⟨t', ⟨path', hpath'⟩, hfails'⟩ := h'
      obtain rfl := hpath.end_unique hfails.next_eq hpath' hfails'.next_eq
      exact .inr ⟨t, e, e', c, c', rfl, rfl, hfails, hfails'⟩

/-- **The same turns lead to the same result.** -/
theorem Settles.alike {α : Type} {verdict : α → Verdict} (hverdict : verdict.Injective)
    {r r' : EStateM.Result Error Context α}
    (h : Settles setting program s (fun a c => .done (verdict a) c) r)
    (h' : Settles setting program' s (fun a c => .done (verdict a) c) r') : Alike r r' := by
  rcases h.same_end h' with ⟨a, a', c, rfl, rfl, ha⟩ | ⟨t, e, e', c, c', rfl, rfl, hfails, hfails'⟩
  · exact ⟨hverdict ha, rfl⟩
  · exact hfails.alike hfails'

/-- Turns that lead on to a stage lead to its result. -/
theorem Settles.of_reaches {α : Type} {onward : α → Context → Stage}
    {r : EStateM.Result Error Context α} (hreaches : Reaches setting s t)
    (h : Settles setting program t onward r) : Settles setting program s onward r := by
  obtain ⟨path, hpath⟩ := hreaches
  induction hpath with
  | refl s => exact h
  | head turn rest ih => exact .head turn (ih h)

end Stage

/-! ### Lines of layout -/

/-- A line of layout: blanks, a comment if there is one, and a line break. -/
structure LayoutLine where
  indent : List Char
  /-- The text of the comment, behind its mark. -/
  comment : Option (List Char)
  lineBreak : Char
  isIndent_indent : ∀ c ∈ indent, isIndent c = true
  isBreak_comment : ∀ text ∈ comment, ∀ c ∈ text, isBreak c = false
  isBreak_lineBreak : isBreak lineBreak = true

namespace LayoutLine

/-- The mark and the text of the comment. -/
def remark (l : LayoutLine) : List Char :=
  match l.comment with
  | some text => '%' :: '\'' :: text
  | none => []

/-- The characters of the line. -/
def text (l : LayoutLine) : List Char := l.indent ++ (l.remark ++ [l.lineBreak])

/-- Whether the line begins with blanks. -/
def isIndented (l : LayoutLine) : Bool := !l.indent.isEmpty

end LayoutLine

/-- The characters of lines of layout. -/
def layout (lines : List LayoutLine) : List Char := lines.flatMap LayoutLine.text

/-- A text that begins with a block. -/
def BeginsWithBlock (p : List Char) : Prop := ['%', '('] <+: p

section Layout

variable {l : LayoutLine} {lines : List LayoutLine} {p cs : List Char}

theorem layout_cons_append (l : LayoutLine) (lines : List LayoutLine) (p : List Char) :
    layout (l :: lines) ++ p =
      l.indent ++ (l.remark ++ l.lineBreak :: (layout lines ++ p)) := by
  simp [layout, LayoutLine.text]

theorem isIndent_of_isBreak {c : Char} (h : isBreak c = true) : isIndent c = false := by
  simp only [isBreak, Bool.or_eq_true, decide_eq_true_eq] at h
  rcases h with rfl | rfl <;> rfl

theorem isBreak_of_isIndent {c : Char} (h : isIndent c = true) : isBreak c = false := by
  simp only [isIndent, Bool.or_eq_true, decide_eq_true_eq] at h
  rcases h with rfl | rfl <;> rfl

/-- Layout outside of comments. -/
theorem skipLayoutAfter_cons {mode : Source.Layout} (hmode : mode ≠ .comment) (c : Char)
    (cs : List Char) :
    skipLayoutAfter mode (c :: cs) =
      if isBreak c || (mode = .break && isIndent c) then skipLayoutAfter .break cs
      else if c = '%' && cs.head? = some '\'' then skipLayoutAfter .comment cs
      else c :: cs := by
  cases mode with
  | comment => exact absurd rfl hmode
  | _ => rfl

/-- A percent sign is no layout but in front of a comment. -/
theorem skipLayoutAfter_percent {mode : Source.Layout} (hmode : mode ≠ .comment) (cs : List Char) :
    skipLayoutAfter mode ('%' :: cs) =
      if cs.head? = some '\'' then skipLayoutAfter .comment cs else '%' :: cs := by
  have hbreak : isBreak '%' = false := rfl
  have hindent : isIndent '%' = false := rfl
  simp [skipLayoutAfter_cons hmode, hbreak, hindent]

/-- A comment is skipped up to the break behind it. -/
theorem skipLayoutAfter_comment {text : List Char} {lineBreak : Char}
    (htext : ∀ c ∈ text, isBreak c = false) (hbreak : isBreak lineBreak = true) :
    skipLayoutAfter .comment (text ++ lineBreak :: cs) = skipLayoutAfter .break cs := by
  induction text with
  | nil =>
    rw [List.nil_append, skipLayoutAfter, if_pos hbreak]
  | cons c text ih =>
    obtain ⟨hc, htext⟩ := List.forall_mem_cons.1 htext
    rw [List.cons_append, skipLayoutAfter, hc, if_neg Bool.false_ne_true]
    exact ih htext

/-- Blanks behind a break are skipped. -/
theorem skipLayoutAfter_indent {indent : List Char} (h : ∀ c ∈ indent, isIndent c = true) :
    skipLayoutAfter .break (indent ++ cs) = skipLayoutAfter .break cs := by
  induction indent with
  | nil => rfl
  | cons c indent ih =>
    obtain ⟨hc, h⟩ := List.forall_mem_cons.1 h
    rw [List.cons_append, skipLayoutAfter_cons (by decide), if_pos (by simp [hc])]
    exact ih h

/-- A line of layout is skipped from behind its indentation on. -/
theorem skipLayoutAfter_remark {mode : Source.Layout} (hmode : mode ≠ .comment) :
    skipLayoutAfter mode (l.remark ++ l.lineBreak :: cs) = skipLayoutAfter .break cs := by
  unfold LayoutLine.remark
  cases hcomment : l.comment with
  | none =>
    rw [List.nil_append, skipLayoutAfter_cons hmode, if_pos (by simp [l.isBreak_lineBreak])]
  | some text =>
    have hmark : ∀ c ∈ '\'' :: text, isBreak c = false :=
      List.forall_mem_cons.2 ⟨rfl, l.isBreak_comment text hcomment⟩
    show skipLayoutAfter mode ('%' :: ('\'' :: text ++ l.lineBreak :: cs)) = _
    rw [skipLayoutAfter_percent hmode, if_pos (by simp)]
    exact skipLayoutAfter_comment hmark l.isBreak_lineBreak

theorem skipLayoutAfter_block {mode : Source.Layout} (hmode : mode ≠ .comment)
    (hp : BeginsWithBlock p) : skipLayoutAfter mode p = p := by
  obtain ⟨body, rfl⟩ := hp
  show skipLayoutAfter mode ('%' :: '(' :: body) = '%' :: '(' :: body
  rw [skipLayoutAfter_percent hmode, if_neg (by simp)]

/-- Behind a break all lines of layout are skipped. -/
theorem skipLayoutAfter_layout (hp : BeginsWithBlock p) :
    skipLayoutAfter .break (layout lines ++ p) = p := by
  induction lines with
  | nil => exact skipLayoutAfter_block (by decide) hp
  | cons l lines ih =>
    rw [layout_cons_append, skipLayoutAfter_indent l.isIndent_indent,
      skipLayoutAfter_remark (by decide), ih]

/-- **Lines of layout are skipped**, if the first of them is not indented. -/
theorem skipLayout_layout (hp : BeginsWithBlock p)
    (hfirst : lines.head?.any (·.isIndented) = false) : skipLayout (layout lines ++ p) = p := by
  cases lines with
  | nil => exact skipLayoutAfter_block (by decide) hp
  | cons l lines =>
    have hindent : l.indent = [] := by simpa [LayoutLine.isIndented] using hfirst
    rw [layout_cons_append, hindent, List.nil_append, skipLayout,
      skipLayoutAfter_remark (by decide), skipLayoutAfter_layout hp]

/-- What is behind the indentation of a line of layout is no blank. -/
theorem skipIndent_remark :
    skipIndent (l.remark ++ l.lineBreak :: cs) = l.remark ++ l.lineBreak :: cs := by
  unfold LayoutLine.remark skipIndent
  cases l.comment with
  | none =>
    have hbreak := isIndent_of_isBreak l.isBreak_lineBreak
    rw [List.nil_append, List.dropWhile_cons_of_neg (by simp [hbreak])]
  | some text => rfl

theorem skipIndent_indent :
    skipIndent (l.indent ++ (l.remark ++ l.lineBreak :: cs)) = l.remark ++ l.lineBreak :: cs := by
  rw [skipIndent, List.dropWhile_append_of_pos l.isIndent_indent]
  exact skipIndent_remark

/-- **Behind the blanks of an indented line of layout nothing more is skipped.** -/
theorem skipIndent_skipLayout (h : l.isIndented = true) :
    skipIndent (skipLayout (l.indent ++ (l.remark ++ l.lineBreak :: cs))) =
      l.remark ++ l.lineBreak :: cs := by
  have hskip : skipLayout (l.indent ++ (l.remark ++ l.lineBreak :: cs)) =
      l.indent ++ (l.remark ++ l.lineBreak :: cs) := by
    cases hindent : l.indent with
    | nil => simp [LayoutLine.isIndented, hindent] at h
    | cons blank indent =>
      have hblank : isIndent blank = true := l.isIndent_indent blank (by simp [hindent])
      have hbreak := isBreak_of_isIndent hblank
      have hpercent : blank ≠ '%' := by
        rintro rfl
        exact absurd hblank (by decide)
      rw [List.cons_append, skipLayout, skipLayoutAfter_cons (by decide),
        if_neg (by simp [hbreak]), if_neg (by simp [hpercent])]
  rw [hskip, skipIndent_indent]

/-- A line of layout that is not empty begins with no break. -/
theorem dropWhile_isBreak_line (h : ¬(l.indent = [] ∧ l.comment = none)) :
    (l.indent ++ (l.remark ++ l.lineBreak :: cs)).dropWhile isBreak =
      l.indent ++ (l.remark ++ l.lineBreak :: cs) := by
  cases hindent : l.indent with
  | cons blank indent =>
    have hblank := isBreak_of_isIndent (l.isIndent_indent blank (by simp [hindent]))
    rw [List.cons_append, List.dropWhile_cons_of_neg (by simp [hblank])]
  | nil =>
    rw [LayoutLine.remark]
    cases hcomment : l.comment with
    | none => exact absurd ⟨hindent, hcomment⟩ h
    | some text => rfl

/-- A line of layout is no block. -/
theorem open_remark : open? (l.remark ++ l.lineBreak :: cs) = none := by
  have hbreak := l.isBreak_lineBreak
  unfold LayoutLine.remark
  cases l.comment with
  | some text => rfl
  | none =>
    rw [List.nil_append]
    unfold open?
    split
    · rename_i heq
      obtain ⟨hpercent, -⟩ := List.cons.inj heq
      rw [hpercent] at hbreak
      exact absurd hbreak (by decide)
    · rfl

end Layout

/-! ### Layout in a block -/

namespace Stage

variable {setting : Setting} {stack : Stack} {block : Block} {c : Context} {l : LayoutLine}
  {lines : List LayoutLine} {p cs : List Char}

/-- A block goes on behind a line break, and the breaks and blanks that follow it. -/
theorem reaches_break {lineBreak : Char} (h : isBreak lineBreak = true) :
    Reaches setting (.reading stack block (lineBreak :: cs) c)
      (.reading stack block (skipNewline cs) c) := by
  refine Reaches.head ?_ (.refl _)
  rw [next, if_pos h, skipNewline, List.dropWhile_cons_of_pos h]
  rfl

/-- A block goes on behind a line of layout. -/
theorem reaches_remark :
    Reaches setting (.reading stack block (l.remark ++ l.lineBreak :: cs) c)
      (.reading stack block (skipNewline cs) c) := by
  have hbreak : Reaches setting (.reading stack block (l.lineBreak :: cs) c)
      (.reading stack block (skipNewline cs) c) := reaches_break l.isBreak_lineBreak
  unfold LayoutLine.remark
  cases hcomment : l.comment with
  | none => exact hbreak
  | some text =>
    refine Reaches.head ?_ hbreak
    have hskip : skipLine (text ++ l.lineBreak :: cs) = l.lineBreak :: cs := by
      have htext := l.isBreak_comment text hcomment
      rw [skipLine, List.dropWhile_append_of_pos (by simpa using htext),
        List.dropWhile_cons_of_neg (by simp [l.isBreak_lineBreak])]
    show some (Stage.reading stack block (skipLine (text ++ l.lineBreak :: cs)) c) = _
    rw [hskip]

/-- **A block goes on behind lines of layout.** -/
theorem reaches_layout (hp : BeginsWithBlock p) :
    Reaches setting (.reading stack block (skipNewline (layout lines ++ p)) c)
      (.reading stack block p c) := by
  induction lines with
  | nil =>
    obtain ⟨body, rfl⟩ := hp
    exact .refl _
  | cons l lines ih =>
    rw [layout_cons_append]
    -- An empty line is skipped with the break in front of it; any other is come to by itself.
    by_cases hempty : l.indent = [] ∧ l.comment = none
    · rw [hempty.1, LayoutLine.remark, hempty.2, List.nil_append, List.nil_append, skipNewline,
        List.dropWhile_cons_of_pos l.isBreak_lineBreak]
      exact ih
    · rw [skipNewline, dropWhile_isBreak_line hempty, ← skipIndent, skipIndent_indent]
      exact reaches_remark.trans ih

end Stage

/-! ### Pattern programs -/

/-- Run all of a program as a test at `count` addresses from `address` on, after `matched`
matches. -/
def tests (setting : Setting) (program : List Char) : Nat → Nat → UInt16 → Run UInt16
  | 0, _, matched => return matched
  | count + 1, address, matched => do
    modify (·.beginCandidate (UInt16.ofNat address) matched)
    let (outcome, _) ← runBlock setting program false program
    tests setting program count (address + 1) (if outcome.truth then matched + 1 else matched)

/-- Run all of a program as a test at every address of a pattern block. -/
def testEverywhere (setting : Setting) (program : String) : Run UInt16 := do
  let c ← get
  let first := c.blockStart.toNat
  tests setting program.toList (c.blockEnd.toNat + 1 - first) first 0

namespace Stage

variable {setting : Setting}

/-- The turns of a search whose program stands behind layout that is left standing. -/
theorem tests_settles {text p : List Char} (hopen : open? text = none)
    (hreaches : ∀ {stack : Stack} {block : Block} {c : Context},
      Reaches setting (.reading stack block text c) (.reading stack block p c))
    (count address : Nat) (matched : UInt16) (c : Context) :
    Settles setting p (.seeking ⟨text, count, address, matched⟩ c)
      (fun matched c => .done (.matches matched) c)
      (tests setting p count address matched c) := by
  induction count generalizing address matched c with
  | zero => exact .head rfl (.ok rfl)
  | succ count ih =>
    rw [tests, bind_ok (modify_apply _ _)]
    have hturn : next setting (.seeking ⟨text, count + 1, address, matched⟩ c) =
        some (.reading (.test ⟨text, count, address, matched⟩) { isNested := false } text
          (c.beginCandidate (UInt16.ofNat address) matched)) := by
      simp only [next, seek, hopen]
    refine .head hturn (.of_reaches hreaches ?_)
    refine (block_settles _ { isNested := false } _ (Nat.lt_succ_self _)).bind ?_
    rintro ⟨outcome, rest⟩ c' -
    have htested : tested ⟨text, count, address, matched⟩ outcome rest c' =
        .seeking ⟨text, count, address + 1, if outcome.truth then matched + 1 else matched⟩ c' := by
      simp [tested, hopen, Seek.next]
    refine .head rfl ?_
    rw [htested]
    exact ih (address + 1) _ c'

theorem testEverywhere_settles {text : List Char} {program : String} (hopen : open? text = none)
    (hreaches : ∀ {stack : Stack} {block : Block} {c : Context},
      Reaches setting (.reading stack block text c) (.reading stack block program.toList c))
    (c : Context) :
    Settles setting program.toList
      (.seeking ⟨text, c.blockEnd.toNat + 1 - c.blockStart.toNat, c.blockStart.toNat, 0⟩ c)
      (fun matched c => .done (.matches matched) c) (testEverywhere setting program c) :=
  tests_settles hopen hreaches _ _ _ c

end Stage

open Stage

/-- **Layout in front of a pattern program.** If the first line of the layout is not indented, the
program gives the same with it as without it. If it is indented, the program is not taken for a test
and an action any more, but run from end to end as a test at every address. -/
theorem runPattern_layout (setting : Setting) (lines : List LayoutLine) (program : String)
    (hblock : BeginsWithBlock program.toList) (c : Context) :
    Alike (runPattern setting (String.ofList (layout lines) ++ program) c)
      (if lines.head?.any (·.isIndented) then testEverywhere setting program c
        else runPattern setting program c) := by
  have hmatches : Verdict.matches.Injective := fun _ _ => Verdict.matches.inj
  have hrun := runPattern_settles setting (String.ofList (layout lines) ++ program) c
  unfold startPattern at hrun
  rw [String.toList_append, String.toList_ofList] at hrun
  cases hfirst : lines.head?.any (·.isIndented) with
  | false =>
    rw [if_neg Bool.false_ne_true]
    have hrun' := runPattern_settles setting program c
    unfold startPattern at hrun'
    have hskip : skipLayout program.toList = program.toList :=
      skipLayoutAfter_block (by decide) hblock
    rw [skipLayout_layout hblock hfirst] at hrun
    rw [hskip] at hrun'
    exact hrun.alike hmatches hrun'
  | true =>
    rw [if_pos rfl]
    cases lines with
    | nil => simp at hfirst
    | cons l lines =>
      have hindented : l.isIndented = true := by simpa using hfirst
      rw [layout_cons_append, skipIndent_skipLayout hindented] at hrun
      refine hrun.alike hmatches (testEverywhere_settles open_remark ?_ c)
      exact reaches_remark.trans (reaches_layout hblock)

/-- A program that comments on the loads of one register. -/
def loadsProgram : String := "%(%PFindBytes(\"06\")%)%(%;REC8F8Floads B\n%)"

/-- Two loads and a return. -/
def loadsBytes : Setting :=
  ⟨⟨#[0x3E, 0x05, 0x06, 0x07, 0xC9], 0, 0x9000, 5, by decide, by decide⟩, {}, Spectrum.charset,
    Spectrum.floats⟩

/-- The context of a search over all of them. -/
def loadsContext : Context := .start loadsBytes (.ofList []) ∅ 0x9000 0x9004

/-- A remark on a line of its own, and a line of blanks. -/
def layoutSample : List LayoutLine :=
  [⟨[], some [' ', 'B'], '\n', by simp, by simp [isBreak], rfl⟩,
    ⟨[' ', '\t'], none, '\r', by simp [isIndent], by simp, rfl⟩]

/-- In this order the layout makes no difference, in the other one it does. -/
theorem runPattern_layout_layoutSample :
    BeginsWithBlock loadsProgram.toList ∧
      Alike (runPattern loadsBytes ("%' B\n \t\r" ++ loadsProgram) loadsContext)
        (runPattern loadsBytes loadsProgram loadsContext) ∧
      Alike (runPattern loadsBytes (" \t\r%' B\n" ++ loadsProgram) loadsContext)
        (testEverywhere loadsBytes loadsProgram loadsContext) := by
  -- With any context in its place, nothing here evaluates the runs.
  generalize loadsContext = c
  have hblock : BeginsWithBlock loadsProgram.toList := List.isPrefixOf_iff_prefix.1 (by decide)
  have hplain := runPattern_layout loadsBytes layoutSample loadsProgram hblock c
  have hindented := runPattern_layout loadsBytes layoutSample.reverse loadsProgram hblock c
  have hlayout : String.ofList (layout layoutSample) = "%' B\n \t\r" := by decide
  have hreverse : String.ofList (layout layoutSample.reverse) = " \t\r%' B\n" := by decide
  rw [hlayout, if_neg (by decide)] at hplain
  rw [hreverse, if_pos (by decide)] at hindented
  exact ⟨hblock, hplain, hindented⟩

/-- Behind a line with a blank the program comments on every address, and not on the one load. -/
theorem runPattern_blank_line :
    ¬Alike (runPattern loadsBytes (" \n" ++ loadsProgram) loadsContext)
      (runPattern loadsBytes loadsProgram loadsContext) := by
  have hplain : (ending (runPattern loadsBytes loadsProgram loadsContext)).overlay.pending.map
      (·.first) = [0x9002] := by
    decide +kernel
  have hblank : (ending (runPattern loadsBytes (" \n" ++ loadsProgram)
      loadsContext)).overlay.pending.map (·.first) =
        [0x9000, 0x9001, 0x9002, 0x9003, 0x9004] := by
    decide +kernel
  generalize runPattern loadsBytes loadsProgram loadsContext = plain at hplain ⊢
  generalize runPattern loadsBytes (" \n" ++ loadsProgram) loadsContext = blank at hblank ⊢
  intro h
  rw [h.ending_eq, hplain] at hblank
  exact absurd hblank (by decide)

end Script
end Disassembly
