/-
# The text of a line of a message

What a line of a message shows is told by its signs, one for each byte: a character in quotes, or a
text of its own such as a number. Characters that are neighbours share one pair of quotes, and commas
stand between all others (`Sign.between`). The draft of a line keeps only the text and whether quotes
are open, and with that gives the text that follows from the signs (`closeQuote_ofSigns`).
-/

import Disassembly.Routine.Message

namespace Disassembly
namespace Routine
namespace Message

/-- How a byte of a message is shown: as a character in quotes, or by a text of its own. -/
inductive Sign
  | char (c : Char)
  | other (text : String)

namespace Sign

def isChar : Sign → Bool
  | char _ => true
  | other _ => false

def text : Sign → String
  | char c => Draft.quotedChar c
  | other text => text

/-- The quote at either side of a sign. -/
def quote (s : Sign) : String := if s.isChar then "\"" else ""

/-- What stands between two signs: characters share their quotes, others have a comma. -/
def between (s s' : Sign) : String :=
  if s.isChar && s'.isChar then "" else s.quote ++ "," ++ s'.quote

/-- The text of a line behind a sign. -/
def textBehind : Sign → List Sign → String
  | s, [] => s.quote
  | s, s' :: signs => s.between s' ++ s'.text ++ textBehind s' signs

/-- The text of a line. -/
def lineText : List Sign → String
  | [] => ""
  | s :: signs => s.quote ++ s.text ++ s.textBehind signs

end Sign

namespace Draft

variable {d : Draft} {s : Sign}

/-- Add a sign to a line. -/
def add (d : Draft) : Sign → Draft
  | .char c => d.printable c
  | .other text => d.item text 1

/-- The line with the given signs. -/
def ofSigns (signs : List Sign) : Draft := signs.foldl add {}

theorem ofSigns_concat (signs : List Sign) (s : Sign) :
    ofSigns (signs ++ [s]) = (ofSigns signs).add s := by
  rw [ofSigns, List.foldl_append, List.foldl_cons, List.foldl_nil, ofSigns]

/-- The last sign of a line is the given one: quotes are open behind a character. -/
structure IsAfter (d : Draft) (s : Sign) : Prop where
  items : 0 < d.items
  quoted : d.quoted = s.isChar

@[simp] theorem closeQuote_items (d : Draft) : d.closeQuote.items = d.items := by
  unfold closeQuote
  split <;> rfl

@[simp] theorem closeQuote_quoted (d : Draft) : d.closeQuote.quoted = false := by
  unfold closeQuote
  split
  · rfl
  · rename_i hquoted
    exact Bool.eq_false_iff.2 hquoted

/-- The quotes behind the last sign are closed. -/
theorem IsAfter.closeQuote_text (h : d.IsAfter s) : d.closeQuote.text = d.text ++ s.quote := by
  rw [closeQuote, h.quoted, Sign.quote]
  cases s.isChar with
  | true => rfl
  | false => exact (String.append_empty).symm

/-- A line begins with a sign. -/
theorem isAfter_first (s : Sign) :
    (add {} s).IsAfter s ∧ (add {} s).text = s.quote ++ s.text := by
  cases s with
  | char c => exact ⟨⟨Nat.one_pos, rfl⟩, rfl⟩
  | other text => exact ⟨⟨Nat.one_pos, rfl⟩, rfl⟩

/-- **A sign is added behind another.** -/
theorem IsAfter.add (h : d.IsAfter s) (s' : Sign) :
    (d.add s').IsAfter s' ∧ (d.add s').text = d.text ++ (s.between s' ++ s'.text) := by
  cases s' with
  | other text =>
    have hcomma : d.closeQuote.comma = "," := if_pos (by rw [closeQuote_items]; exact h.items)
    refine ⟨⟨Nat.succ_pos _, closeQuote_quoted d⟩, ?_⟩
    change d.closeQuote.text ++ d.closeQuote.comma ++ text = _
    rw [h.closeQuote_text, hcomma, Sign.between]
    simp [Sign.isChar, Sign.quote, Sign.text, String.append_assoc]
  | char c' =>
    have hquoted := h.quoted
    cases s with
    | char c =>
      have hadd : d.add (.char c') =
        { d with text := d.text ++ quotedChar c', bytes := d.bytes + 1 } := if_pos hquoted
      rw [hadd]
      refine ⟨⟨h.items, hquoted⟩, ?_⟩
      simp [Sign.between, Sign.isChar, Sign.text]
    | other text =>
      have hcomma : d.comma = "," := if_pos h.items
      have hadd : d.add (.char c') =
          { text := d.text ++ d.comma ++ "\"" ++ quotedChar c', quoted := true
            items := d.items + 1, bytes := d.bytes + 1 } := by
        rw [Draft.add, printable, hquoted]
        rfl
      rw [hadd, hcomma]
      refine ⟨⟨Nat.succ_pos _, rfl⟩, ?_⟩
      simp [Sign.between, Sign.isChar, Sign.quote, Sign.text, String.append_assoc]

/-- The signs behind another are added one by one. -/
theorem IsAfter.foldl_add (h : d.IsAfter s) (signs : List Sign) :
    0 < (signs.foldl Draft.add d).items ∧
      (signs.foldl Draft.add d).closeQuote.text = d.text ++ s.textBehind signs := by
  induction signs generalizing d s with
  | nil => exact ⟨h.items, h.closeQuote_text⟩
  | cons s' signs ih =>
    obtain ⟨hafter, htext⟩ := h.add s'
    obtain ⟨hitems, hrest⟩ := ih hafter
    refine ⟨hitems, ?_⟩
    rw [List.foldl_cons, hrest, htext, Sign.textBehind, String.append_assoc]

/-- **The text of a line follows from its signs.** -/
theorem closeQuote_ofSigns {signs : List Sign} (hne : signs ≠ []) :
    (ofSigns signs).items ≠ 0 ∧ (ofSigns signs).closeQuote.text = Sign.lineText signs := by
  obtain ⟨s, signs, rfl⟩ := List.exists_cons_of_ne_nil hne
  obtain ⟨hafter, htext⟩ := isAfter_first s
  obtain ⟨hitems, hline⟩ := hafter.foldl_add signs
  refine ⟨Nat.ne_of_gt hitems, ?_⟩
  rw [ofSigns, List.foldl_cons, hline, htext, Sign.lineText]

example : Sign.lineText [.char 'H', .char 'i', .other "0", .other "5", .char '"'] =
    "\"Hi\",0,5,\"\"\"\"" := by decide

/-- A line shows a byte for each sign. -/
theorem bytes_foldl_add (signs : List Sign) (d : Draft) :
    (signs.foldl Draft.add d).bytes = d.bytes + signs.length := by
  have hadd (d : Draft) (s : Sign) : (d.add s).bytes = d.bytes + 1 := by
    cases s with
    | char c =>
      simp only [Draft.add, printable]
      split <;> rfl
    | other text =>
      simp only [Draft.add, item, closeQuote]
      split <;> rfl
  induction signs generalizing d with
  | nil => rfl
  | cons s signs ih =>
    rw [List.foldl_cons, ih, hadd, List.length_cons]
    omega

theorem bytes_ofSigns (signs : List Sign) : (ofSigns signs).bytes = signs.length := by
  rw [ofSigns, bytes_foldl_add]
  exact Nat.zero_add _

end Draft

end Message
end Routine
end Disassembly
