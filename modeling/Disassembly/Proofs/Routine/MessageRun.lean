/-
# Messages from any context

A message can be dumped from any context: with text on the line already, in the middle of the bytes
of a line, with blank lines asked for, and up to the last address. While it is written, some pages of
signs have become lines and the signs of one more are in the draft (`Writes`). A byte that is read
adds its sign (`Writes.add`), perhaps behind a new line (`Writes.nextByte`). So a run over bytes that
the buffer holds adds the signs of all of them (`Writes.body_of_holds`), and a run that ends well has
read such bytes (`Writes.body_eq_ok`). Up to the last address a byte is read at its distance from
the start; behind it addresses start at zero again, and no more is said about the bytes.
-/

import Disassembly.Proofs.Routine.MessageLines
import Mathlib.Data.List.Forall2

namespace Disassembly

/-- The text of a line of data. -/
def Line.dataText? (line : Line) : Option String :=
  match line.body with
  | .data text => some text
  | _ => none

namespace Image

variable {image : Image} {address : Nat}

/-- An image that holds bytes holds the first of them. -/
theorem Holds.take {bytes : List UInt8} (h : image.Holds address bytes) (n : Nat) :
    image.Holds address (bytes.take n) := by
  rw [← List.take_append_drop n bytes] at h
  exact (holds_append.1 h).1

/-- The bytes that lie in the address space are held one by one. -/
theorem holds_take_cons {b : UInt8} {bytes : List UInt8}
    (hbyte : address < 0x10000 → image.byte? address = some b)
    (h : image.Holds (address + 1) (bytes.take (0x10000 - (address + 1)))) :
    image.Holds address ((b :: bytes).take (0x10000 - address)) := by
  by_cases htop : address < 0x10000
  · rw [show 0x10000 - address = 0x10000 - (address + 1) + 1 by omega, List.take_succ_cons]
    exact ⟨hbyte htop, h⟩
  · rw [show 0x10000 - address = 0 by omega, List.take_zero]
    trivial

end Image

namespace Script.Context

variable {setting : Setting} {c : Context}

/-- Reading a byte moves the current address by one. -/
theorem currentAddress_advance (c : Context) (bytes : Nat) :
    (c.advance bytes).currentAddress = c.currentAddress + UInt16.ofNat bytes :=
  (UInt16.add_assoc _ _ _).symm

/-- Below the top of the address space reading a byte moves the position by one. -/
theorem position_advance_one (h : c.position + 1 < 0x10000) :
    (c.advance 1).position = c.position + 1 := by
  unfold position at h ⊢
  rw [c.toNat_lineOffset_advance 1 (by omega)]
  show c.lineStart.toNat + (c.lineOffset.toNat + 1) = c.lineStart.toNat + c.lineOffset.toNat + 1
  omega

/-- The current address is the position, where it has not wrapped. -/
theorem toNat_currentAddress (h : c.position < 0x10000) : c.currentAddress.toNat = c.position := by
  unfold position at h ⊢
  rw [currentAddress, UInt16.toNat_add]
  omega

/-- The block is made to end in front of the current address. -/
theorem endBlockHere_blockEnd (c : Context) : c.endBlockHere.blockEnd = c.currentAddress - 1 := by
  have hstart := c.lineStart.toNat_lt
  have hoffset := c.lineOffset.toNat_lt
  apply UInt16.toNat_inj.1
  show (UInt16.ofNat (c.position + 0xFFFF)).toNat = (c.lineStart + c.lineOffset - 1).toNat
  rw [UInt16.toNat_ofNat', UInt16.toNat_sub, UInt16.toNat_add, position]
  show (_ + _ + 65535) % 65536 = (65536 - 1 + (_ + _) % 65536) % 65536
  omega

/-- Ending a line keeps the current address, and makes it the position. -/
theorem currentAddress_endLine (setting : Setting) (c : Context) :
    (c.endLine setting).currentAddress = c.currentAddress ∧
      (c.endLine setting).position = c.currentAddress.toNat := by
  unfold endLine
  split <;> exact ⟨UInt16.add_zero _, Nat.add_zero _⟩

theorem dataText?_finishedLine (setting : Setting) (line : OpenLine)
    (comments : List Overlay.Comment) :
    (finishedLine setting line comments).dataText? = some line.text := by
  have hbody : (finishedLine setting line comments).body = .data line.text :=
    congrArg Line.body (bare_finishedLine setting line comments)
  rw [Line.dataText?, hbody]

/-- A line that is ended becomes a line with its text, with blank lines behind it. -/
theorem endLine_lines (setting : Setting) (c : Context) {line : OpenLine} (h : c.line = some line) :
    ∃ lines, (c.endLine setting).lines.toList = c.lines.toList ++ lines ∧
      lines.filterMap Line.dataText? = [line.text] := by
  have hblank : Line.blank.dataText? = none := rfl
  have hlines (record : Line) :
      (c.lines.push record ++ Array.replicate c.format.spacing Line.blank).toList =
        c.lines.toList ++ (record :: List.replicate c.format.spacing Line.blank) := by
    simp
  simp only [endLine, h]
  refine ⟨_, hlines _, ?_⟩
  rw [List.filterMap_cons, dataText?_finishedLine, List.filterMap_replicate_of_none hblank]

end Script.Context

namespace Routine

open Script

/-- A byte that is read is one of the image. -/
theorem byte?_of_nextByte {setting : Setting} {c c' : Context} {b : UInt8}
    (h : Action.nextByte setting c = .ok b c') : setting.image.byte? c.position = some b := by
  rw [Action.nextByte, bind_ok (get_apply c)] at h
  obtain ⟨b', c₁, hread, hrest⟩ := bind_eq_ok h
  obtain ⟨rfl, -⟩ := EStateM.Result.ok.inj hrest
  exact (readByte_eq_ok hread).1

namespace Message

/-! ### What signs stand for -/

/-- **A sign stands for a byte**: the character that the byte is, the byte as a number, or a character
plus 128. -/
inductive Stands (charset : CharacterSet) (style : Style) : UInt8 → Sign → Prop
  | char {b : UInt8} {c : Char} (hglyph : charset.glyph b = .printable c) :
    Stands charset style b (.char c)
  | number (b : UInt8) : Stands charset style b (style.numberSign b)
  | marked {b : UInt8} {c : Char} (hglyph : charset.glyph (b &&& 0x7F) = .printable c)
    (hbit : b.toNat.testBit 7 = true) :
    Stands charset style b (.other ("\"" ++ Draft.quotedChar c ++ "\"+" ++
      Numeral.operand 0x80 .byte style.base false))

/-- The signs of bytes stand for them. -/
theorem stands_signs (charset : CharacterSet) (style : Style) (bytes : List UInt8) :
    ∀ parameters,
      List.Forall₂ (Stands charset style) bytes (style.signs charset parameters bytes) := by
  induction bytes with
  | nil => exact fun _ => .nil
  | cons b bytes ih =>
    intro parameters
    cases parameters with
    | succ parameters => exact .cons (.number b) (ih parameters)
    | zero =>
      refine .cons ?_ (ih _)
      unfold Style.sign
      cases hglyph : charset.glyph b with
      | printable c => exact .char hglyph
      | _ => exact .number b

/-- The sign of the byte that ends a message stands for it. -/
theorem stands_lastSign (charset : CharacterSet) (style : Style) {t : Terminator} {b : UInt8}
    (hends : t.ends b = true) : Stands charset style b (style.lastSign charset t b) := by
  cases t with
  | highBit =>
    simp only [Style.lastSign]
    cases hglyph : charset.glyph (b &&& 0x7F) with
    | printable c => exact .marked hglyph hends
    | _ => exact .number b
  | _ => exact .number b

/-! ### Drafts and the lines they become -/

/-- A draft has these signs on it, whatever it counts as bytes. -/
structure Draft.Has (d : Draft) (signs : List Sign) : Prop where
  text : d.text = (Draft.ofSigns signs).text
  quoted : d.quoted = (Draft.ofSigns signs).quoted
  items : d.items = (Draft.ofSigns signs).items

namespace Draft

variable {d : Draft} {signs : List Sign}

theorem has_nil : ({} : Draft).Has [] := ⟨rfl, rfl, rfl⟩

/-- A first item is the only sign, however many bytes it shows. -/
theorem has_item (text : String) (bytes : Nat) : (item {} text bytes).Has [.other text] :=
  ⟨rfl, rfl, rfl⟩

theorem Has.closeQuote (h : d.Has signs) :
    d.closeQuote.text = (ofSigns signs).closeQuote.text ∧
      d.closeQuote.items = (ofSigns signs).items := by
  rw [closeQuote_items, h.items, Draft.closeQuote, Draft.closeQuote, h.quoted]
  split_ifs
  · exact ⟨congrArg (· ++ "\"") h.text, rfl⟩
  · exact ⟨h.text, rfl⟩

/-- A sign is added to those that a draft has. -/
theorem Has.add (h : d.Has signs) (s : Sign) : (d.add s).Has (signs ++ [s]) := by
  cases s with
  | char c =>
    constructor
    all_goals
      rw [ofSigns_concat]
      simp only [Draft.add, printable, comma, h.quoted, h.text, h.items]
      split_ifs <;> rfl
  | other text =>
    obtain ⟨htext, hitems⟩ := h.closeQuote
    constructor
    all_goals
      rw [ofSigns_concat]
      simp only [Draft.add, item, comma, htext, hitems, closeQuote_items, closeQuote_quoted]

/-- The line of a draft is the text of its signs. -/
theorem Has.lineText (h : d.Has signs) (hne : signs ≠ []) :
    d.items ≠ 0 ∧ d.closeQuote.text = Sign.lineText signs := by
  obtain ⟨hitems, htext⟩ := closeQuote_ofSigns hne
  exact ⟨h.items ▸ hitems, h.closeQuote.1.trans htext⟩

end Draft

namespace Style

variable (style : Style)

/-- The texts of lines with a title. What is on the first line already stays in front. -/
def framed (separator front : String) : List String → List String
  | [] => []
  | text :: texts => (front ++ style.title ++ separator ++ text) ::
    texts.map fun text => style.title ++ separator ++ text

/-- Only the first line has something in front. -/
theorem framed_concat (separator front : String) (texts : List String) (text : String) :
    style.framed separator front (texts ++ [text]) = style.framed separator front texts ++
      [(if texts = [] then front else "") ++ style.title ++ separator ++ text] := by
  cases texts with
  | nil => simp [framed]
  | cons first texts => simp [framed]

/-- Write a line with a text, behind what is on it already. -/
def writeText (setting : Setting) (text : String) (c : Context) : Context :=
  ((((c.startLine setting).pushText setting style.title).pushSeparator setting).pushText setting
    text).endLine setting

/-- The line that is written. -/
theorem writeText_eq (setting : Setting) (text : String) (c : Context) :
    style.writeText setting text c =
      Context.endLine setting
        { c with line := some ⟨c.marker setting,
            c.lineText ++ style.title ++ setting.scope.separator ++ text⟩ } := by
  have hstart : c.startLine setting =
      { c with line := some ⟨c.marker setting, c.lineText⟩ } := by
    unfold Context.startLine Context.lineText
    cases c.line <;> rfl
  rw [writeText, hstart, Context.pushSeparator, Context.pushText_of_some _ _ _ rfl,
    Context.pushText_of_some _ _ _ rfl, Context.pushText_of_some _ _ _ rfl]

/-- The line that is written has the text behind what is on it already. -/
theorem writeText_lines (setting : Setting) (text : String) (c : Context) :
    ∃ lines, (style.writeText setting text c).lines.toList = c.lines.toList ++ lines ∧
      lines.filterMap Line.dataText? =
        [c.lineText ++ style.title ++ setting.scope.separator ++ text] := by
  rw [writeText_eq]
  exact Context.endLine_lines setting { c with line := some _ } rfl

/-- Writing a line keeps the current address and the end of the block, and nothing is on the next
line. -/
theorem writeText_rest (setting : Setting) (text : String) (c : Context) :
    (style.writeText setting text c).lineText = "" ∧
      (style.writeText setting text c).blockEnd = c.blockEnd ∧
      (style.writeText setting text c).currentAddress = c.currentAddress ∧
      (style.writeText setting text c).position = c.currentAddress.toNat := by
  rw [writeText_eq]
  exact ⟨rfl, rfl, Context.currentAddress_endLine setting _⟩

end Style

/-- **A step of a run** shows a byte by a sign, and tells how many parameters follow. -/
theorem Style.exists_step (setting : Setting) (style : Style) (parameters : Nat) :
    ∃ (sign : UInt8 → Sign) (next : UInt8 → Nat),
      (∀ count d, style.body setting (count + 1) parameters d =
        (style.nextByte setting d >>= fun r =>
          style.body setting count (next r.1) (r.2.add (sign r.1)))) ∧
      ∀ b bytes, style.signs setting.charset parameters (b :: bytes) =
        sign b :: style.signs setting.charset (next b) bytes := by
  cases parameters with
  | zero => exact ⟨style.sign setting.charset, setting.charset.operands,
      fun count d => style.body_token setting count d, fun _ _ => rfl⟩
  | succ parameters => exact ⟨style.numberSign, fun _ => parameters,
      fun count d => style.body_parameter setting count parameters d, fun _ _ => rfl⟩

/-! ### The state of a message -/

/-- **Pages of signs stand on the lines that were added**, one page on each. Blank lines between them
do not count. -/
def OnLines (setting : Setting) (style : Style) (start : Context) (pages : List (List Sign))
    (c : Context) : Prop :=
  ∃ lines, c.lines.toList = start.lines.toList ++ lines ∧
    lines.filterMap Line.dataText? =
      style.framed setting.scope.separator start.lineText (pages.map Sign.lineText)

/-- **Pages of a message have become lines**, and so many bytes were read for it. -/
structure Progress (setting : Setting) (style : Style) (start : Context) (pages : List (List Sign))
    (count : Nat) (c : Context) : Prop where
  lines : OnLines setting style start pages c
  lineText : c.lineText = if pages = [] then start.lineText else ""
  blockEnd : c.blockEnd = start.blockEnd
  currentAddress : c.currentAddress = start.currentAddress + UInt16.ofNat count
  /-- Up to the top of the address space the position follows the bytes. -/
  position : start.position + count < 0x10000 → c.position = start.position + count

namespace Progress

variable {setting : Setting} {style : Style} {start c : Context} {pages : List (List Sign)}
  {count : Nat}

protected theorem start (setting : Setting) (style : Style) (c : Context) :
    Progress setting style c [] 0 c where
  lines := ⟨[], (List.append_nil _).symm, rfl⟩
  lineText := rfl
  blockEnd := rfl
  currentAddress := (UInt16.add_zero _).symm
  position _ := rfl

/-- A byte is read. -/
theorem advance (h : Progress setting style start pages count c) :
    Progress setting style start pages (count + 1) (c.advance 1) where
  lines := h.lines
  lineText := h.lineText
  blockEnd := h.blockEnd
  currentAddress := by
    rw [c.currentAddress_advance, h.currentAddress, UInt16.add_assoc, ← UInt16.ofNat_add]
  position htop := by
    have hposition := h.position (by omega)
    rw [Context.position_advance_one (by omega), hposition]
    omega

/-- A page becomes a line. -/
theorem writeText (h : Progress setting style start pages count c) (page : List Sign) :
    Progress setting style start (pages ++ [page]) count
      (style.writeText setting (Sign.lineText page) c) := by
  obtain ⟨hline, hend, haddress, hposition⟩ :=
    style.writeText_rest setting (Sign.lineText page) c
  refine ⟨?_, ?_, hend.trans h.blockEnd, haddress.trans h.currentAddress, fun htop => ?_⟩
  · obtain ⟨lines, hlines, htexts⟩ := h.lines
    obtain ⟨lines', hlines', htexts'⟩ := style.writeText_lines setting (Sign.lineText page) c
    refine ⟨lines ++ lines', by rw [hlines', hlines, List.append_assoc], ?_⟩
    rw [List.filterMap_append, htexts, htexts', List.map_append, List.map_singleton,
      Style.framed_concat, h.lineText]
    simp
  · rw [hline, if_neg (by simp)]
  · have hbefore := h.position htop
    rw [hposition, Context.toNat_currentAddress (by omega), hbefore]

/-- The end of the block can be moved. -/
theorem moveEnd (h : Progress setting style start pages count c) (last : UInt16) (emptied : Bool) :
    Progress setting style (start.setBlockEnd last) pages count
      { c with blockEnd := last, emptied } :=
  ⟨h.lines, h.lineText, rfl, h.currentAddress, h.position⟩

/-- The block is made to end behind the bytes that were read. -/
theorem endBlockHere (h : Progress setting style start pages count c) :
    Progress setting style
      (start.setBlockEnd (start.currentAddress + UInt16.ofNat count - 1)) pages count
      c.endBlockHere := by
  have hend : c.endBlockHere =
      { c with blockEnd := c.endBlockHere.blockEnd, emptied := decide (c.position = 0) } := rfl
  rw [hend, c.endBlockHere_blockEnd, h.currentAddress]
  exact h.moveEnd _ _

end Progress

/-- **A message is being written**: these signs are on pages that have become lines and on one more in
the draft, and so many bytes were read for them. -/
def Writes (setting : Setting) (style : Style) (start : Context) (signs : List Sign) (count : Nat)
    (d : Draft) (c : Context) : Prop :=
  ∃ pages page, pages.flatten ++ page = signs ∧ d.Has page ∧
    Progress setting style start pages count c

namespace Writes

variable {setting : Setting} {style : Style} {start c c' : Context} {signs : List Sign} {count : Nat}
  {d d' : Draft}

protected theorem start (setting : Setting) (style : Style) (c : Context) :
    Writes setting style c [] 0 {} c :=
  ⟨[], [], rfl, Draft.has_nil, .start setting style c⟩

/-- A byte is read, and its sign added. -/
theorem add (h : Writes setting style start signs count d c) (s : Sign) :
    Writes setting style start (signs ++ [s]) (count + 1) (d.add s) (c.advance 1) := by
  obtain ⟨pages, page, rfl, hdraft, hprogress⟩ := h
  exact ⟨pages, page ++ [s], (List.append_assoc _ _ _).symm, hdraft.add s, hprogress.advance⟩

/-- The draft becomes a line, unless it is empty. -/
theorem flush (h : Writes setting style start signs count d c) :
    ∃ pages c', style.flush setting d c = .ok () c' ∧ pages.flatten = signs ∧
      Progress setting style start pages count c' := by
  obtain ⟨pages, page, rfl, hdraft, hprogress⟩ := h
  by_cases hne : page = []
  · subst hne
    have hitems : d.items = 0 := hdraft.items
    refine ⟨pages, c, ?_, (List.append_nil _).symm, hprogress⟩
    rw [Style.flush, if_pos hitems]
    rfl
  · obtain ⟨hitems, htext⟩ := hdraft.lineText hne
    refine ⟨pages ++ [page], _, ?_, List.flatten_concat, hprogress.writeText page⟩
    rw [Style.flush, if_neg hitems, modify_apply, htext]
    rfl

/-- Before the next byte the line is written if it is full. -/
theorem wrap (h : Writes setting style start signs count d c) :
    ∃ d' c', style.wrap setting d c = .ok d' c' ∧ Writes setting style start signs count d' c' := by
  unfold Style.wrap
  split_ifs with hfull
  · obtain ⟨pages, c', hflush, hsigns, hprogress⟩ := h.flush
    refine ⟨{}, c', ?_, pages, [], by rw [List.append_nil, hsigns], Draft.has_nil, hprogress⟩
    rw [bind_ok hflush, pure_apply]
  · exact ⟨d, c, rfl, h⟩

/-- **The next byte is the one that follows those that were read.** -/
theorem nextByte (h : Writes setting style start signs count d c) :
    ∃ d₁ c₁, Writes setting style start signs count d₁ c₁ ∧
      style.nextByte setting d c =
        (Action.nextByte setting >>= fun b => pure (b, d₁) : Action (UInt8 × Draft)) c₁ := by
  obtain ⟨d₁, c₁, hwrap, hwrites⟩ := h.wrap
  refine ⟨d₁, c₁, hwrites, ?_⟩
  rw [Style.nextByte, bind_ok hwrap]

theorem position (h : Writes setting style start signs count d c)
    (htop : start.position + count < 0x10000) : c.position = start.position + count := by
  obtain ⟨pages, page, -, -, hprogress⟩ := h
  exact hprogress.position htop

/-- A byte that the buffer holds is read. -/
theorem nextByte_of_byte? (h : Writes setting style start signs count d c) {b : UInt8}
    (htop : start.position + count < 0x10000)
    (hbyte : setting.image.byte? (start.position + count) = some b) (s : Sign) :
    ∃ d' c', style.nextByte setting d c = .ok (b, d') c' ∧
      Writes setting style start (signs ++ [s]) (count + 1) (d'.add s) c' := by
  obtain ⟨d₁, c₁, hwrites, hnext⟩ := h.nextByte
  rw [← hwrites.position htop] at hbyte
  refine ⟨d₁, c₁.advance 1, ?_, hwrites.add s⟩
  rw [hnext, bind_ok (nextByte_eq hbyte), pure_apply]

/-- A byte that is read is one that the buffer holds. -/
theorem nextByte_eq_ok (h : Writes setting style start signs count d c) {b : UInt8}
    (hrun : style.nextByte setting d c = .ok (b, d') c') :
    (start.position + count < 0x10000 →
        setting.image.byte? (start.position + count) = some b) ∧
      ∀ s, Writes setting style start (signs ++ [s]) (count + 1) (d'.add s) c' := by
  obtain ⟨d₁, c₁, hwrites, hnext⟩ := h.nextByte
  rw [hnext] at hrun
  obtain ⟨b', c₂, hbyte, hrest⟩ := bind_eq_ok hrun
  obtain ⟨hpair, rfl⟩ := EStateM.Result.ok.inj hrest
  obtain ⟨rfl, rfl⟩ := Prod.mk.inj hpair
  obtain rfl := eq_advance_of_nextByte hbyte
  refine ⟨fun htop => ?_, hwrites.add⟩
  rw [← hwrites.position htop]
  exact byte?_of_nextByte hbyte

/-- The end of the block can be told to stay where it is. -/
theorem keepEnd (h : Writes setting style start signs count d c) :
    Writes setting style (start.setBlockEnd start.blockEnd) signs count d c := by
  obtain ⟨pages, page, hsigns, hdraft, hprogress⟩ := h
  exact ⟨pages, page, hsigns, hdraft, hprogress.lines, hprogress.lineText, hprogress.blockEnd,
    hprogress.currentAddress, hprogress.position⟩

/-- The block is made to end behind the bytes that were read. -/
theorem endBlockHere (h : Writes setting style start signs count d c) :
    Writes setting style (start.setBlockEnd (start.currentAddress + UInt16.ofNat count - 1)) signs
      count d c.endBlockHere := by
  obtain ⟨pages, page, hsigns, hdraft, hprogress⟩ := h
  exact ⟨pages, page, hsigns, hdraft, hprogress.endBlockHere⟩

/-- **Bytes that the buffer holds are read**, and their signs are added. -/
theorem body_of_holds (bytes : List UInt8) (parameters : Nat)
    (h : Writes setting style start signs count d c)
    (htop : bytes ≠ [] → start.position + count + bytes.length ≤ 0x10000)
    (hholds : setting.image.Holds (start.position + count) bytes) :
    ∃ d' c', style.body setting bytes.length parameters d c = .ok d' c' ∧
      Writes setting style start (signs ++ style.signs setting.charset parameters bytes)
        (count + bytes.length) d' c' := by
  induction bytes generalizing parameters signs count d c with
  | nil => exact ⟨d, c, rfl, by simpa [Style.signs] using h⟩
  | cons b bytes ih =>
    obtain ⟨sign, next, hbody, hsigns⟩ := style.exists_step setting parameters
    have htop := htop (List.cons_ne_nil _ _)
    rw [List.length_cons] at htop
    obtain ⟨d₁, c₁, hnext, hwrites⟩ := h.nextByte_of_byte? (by omega) hholds.1 (sign b)
    obtain ⟨d', c', hrun, hwrites'⟩ :=
      ih (next b) hwrites (fun _ => by omega) (by rw [← Nat.add_assoc]; exact hholds.2)
    refine ⟨d', c', ?_, ?_⟩
    · rw [List.length_cons, hbody, bind_ok hnext]
      exact hrun
    · rw [hsigns, List.length_cons, Nat.add_comm bytes.length, ← Nat.add_assoc, List.append_cons]
      exact hwrites'

/-- **A run that ends well has read bytes**: those in the address space are bytes of the buffer. -/
theorem body_eq_ok {number parameters : Nat} (h : Writes setting style start signs count d c)
    (hrun : style.body setting number parameters d c = .ok d' c') :
    ∃ bytes : List UInt8, bytes.length = number ∧
      setting.image.Holds (start.position + count)
        (bytes.take (0x10000 - (start.position + count))) ∧
      Writes setting style start (signs ++ style.signs setting.charset parameters bytes)
        (count + number) d' c' := by
  induction number generalizing parameters signs count d c with
  | zero =>
    obtain ⟨rfl, rfl⟩ := EStateM.Result.ok.inj hrun
    exact ⟨[], rfl, by simp [Image.Holds], by simpa [Style.signs] using h⟩
  | succ number ih =>
    obtain ⟨sign, next, hbody, hsigns⟩ := style.exists_step setting parameters
    rw [hbody] at hrun
    obtain ⟨⟨b, d₁⟩, c₁, hnext, hrest⟩ := bind_eq_ok hrun
    obtain ⟨hbyte, hwrites⟩ := h.nextByte_eq_ok hnext
    obtain ⟨bytes, hlength, hholds, hwrites'⟩ := ih (hwrites (sign b)) hrest
    refine ⟨b :: bytes, by rw [List.length_cons, hlength],
      Image.holds_take_cons hbyte hholds, ?_⟩
    rw [hsigns, Nat.add_comm number, ← Nat.add_assoc, List.append_cons]
    exact hwrites'

end Writes

/-! ### The length of a message -/

variable {setting : Setting} {ends : UInt8 → Bool} {c c' : Context}

/-- What is left of a block lies in the address space. -/
theorem position_add_remaining (h : 0 < c.remaining) : c.position + c.remaining ≤ 0x10000 := by
  have hstart := c.blockStart.toNat_lt
  have hend := c.blockEnd.toNat_lt
  unfold Context.remaining Context.resume at *
  split_ifs at * <;> omega

/-- The search for the end starts at the position, if anything is left of the block. -/
theorem toNat_currentAddress_of_remaining (h : 0 < c.remaining) :
    c.currentAddress.toNat = c.position :=
  Context.toNat_currentAddress (by have := position_add_remaining h; omega)

/-- A length that is found is the length of a message in the buffer. -/
theorem lengthUpTo_eq_ok {length : Nat × Bool} (h : lengthUpTo setting ends c = .ok length c') :
    ∃ bytes, setting.image.Holds c.position bytes ∧
      IsMessage setting.charset.operands ends c.remaining bytes := by
  rcases Nat.eq_zero_or_pos c.remaining with hzero | hpos
  · refine ⟨[], trivial, hzero ▸ .whole rfl fun i hi => ?_⟩
    cases hi
  · rw [lengthUpTo, bind_ok (get_apply c), toNat_currentAddress_of_remaining hpos] at h
    obtain ⟨found, c₁, hfind, -⟩ := bind_eq_ok h
    obtain ⟨-, bytes, hholds, hfound, hlength⟩ := findEnd_eq_ok hfind
    refine ⟨bytes, hholds, ?_⟩
    rcases hlength with ⟨rfl, hlength⟩ | ⟨n, rfl, hlength, hlt⟩
    · refine .whole hlength fun i hi => ?_
      rw [endIndex?_eq_some_iff.2 hi] at hfound
      cases hfound
    · obtain ⟨m, hm, heq⟩ := Option.map_eq_some_iff.1 hfound.symm
      obtain rfl : m = n := by omega
      obtain ⟨front, b, rest, rfl, rfl⟩ := (endIndex?_eq_some_iff.1 hm).exists_append
      obtain rfl : rest = [] := by
        rw [List.length_append, List.length_cons] at hlength
        exact List.length_eq_zero_iff.1 (by omega)
      exact .ended hlt (endIndex?_eq_some_iff.1 hm)

/-- The length of a message that ends is found. -/
theorem lengthUpTo_of_ended {front : List UInt8} {b : UInt8} (hroom : front.length < c.remaining)
    (hends : EndsAt setting.charset.operands ends (front ++ [b]) front.length)
    (hholds : setting.image.Holds c.position (front ++ [b])) :
    lengthUpTo setting ends c = .ok (front.length, true) c := by
  have haddress := toNat_currentAddress_of_remaining (Nat.zero_lt_of_lt hroom)
  have hcount : (front ++ [b]).length ≤ c.remaining := by
    rw [List.length_append]
    exact hroom
  have hfind := findEnd_of_endIndex? c c.position hcount 0 0 hholds
    (endIndex?_eq_some_iff.2 hends)
  rw [lengthUpTo, bind_ok (get_apply c), haddress, bind_ok hfind, Nat.zero_add]
  rfl

/-- The length of a message that takes up what is left of the block is found. -/
theorem lengthUpTo_of_whole {bytes : List UInt8} (hlength : bytes.length = c.remaining)
    (hends : ∀ i, ¬EndsAt setting.charset.operands ends bytes i)
    (hholds : setting.image.Holds c.position bytes) :
    lengthUpTo setting ends c = .ok (bytes.length, false) c := by
  have hnone : endIndex? setting.charset.operands ends 0 bytes = none :=
    Option.eq_none_iff_forall_ne_some.2 fun i hi => hends i (endIndex?_eq_some_iff.1 hi)
  rw [lengthUpTo, bind_ok (get_apply c), ← hlength]
  rcases Nat.eq_zero_or_pos bytes.length with hzero | hpos
  · rw [hzero]
    rfl
  · have hfind := findEnd_eq setting ends c.position c bytes 0 0 hholds
    rw [toNat_currentAddress_of_remaining (hlength ▸ hpos), bind_ok hfind, hnone]
    rfl

/-! ### Messages without a length -/

variable {style : Style} {t : Terminator} {bytes : List UInt8}

/-- **Bytes have been put on lines**, with signs that stand for them, and the block ends at `last`. -/
def Printed (setting : Setting) (style : Style) (c : Context) (bytes : List UInt8) (last : UInt16)
    (c' : Context) : Prop :=
  ∃ pages : List (List Sign), List.Forall₂ (Stands setting.charset style) bytes pages.flatten ∧
    Progress setting style (c.setBlockEnd last) pages bytes.length c'

/-- The last address of the block behind a message: the one it had, if the message takes up what is
left of the block, or that of the last byte of the message. -/
def EndsBlock (c : Context) (bytes : List UInt8) (last : UInt16) : Prop :=
  bytes.length = c.remaining ∧ last = c.blockEnd ∨
    bytes ≠ [] ∧ last = c.currentAddress + UInt16.ofNat bytes.length - 1

/-- A message that is written becomes lines. -/
theorem Writes.printed {signs : List Sign} {last : UInt16} {d : Draft}
    (h : Writes setting style (c.setBlockEnd last) signs bytes.length d c')
    (hstands : List.Forall₂ (Stands setting.charset style) bytes signs) :
    ∃ c'', style.flush setting d c' = .ok () c'' ∧ Printed setting style c bytes last c'' := by
  obtain ⟨pages, c'', hflush, rfl, hprogress⟩ := h.flush
  exact ⟨c'', hflush, pages, hstands, hprogress⟩

/-- All bytes of a message are put on lines. -/
theorem body_printed (style : Style) (hlength : bytes.length = c.remaining)
    (hholds : setting.image.Holds c.position bytes) :
    ∃ c', (style.body setting bytes.length 0 {} >>= style.flush setting) c = .ok () c' ∧
      Printed setting style c bytes c.blockEnd c' := by
  have htop : bytes ≠ [] → c.position + 0 + bytes.length ≤ 0x10000 := by
    intro hne
    rw [hlength]
    exact position_add_remaining (hlength ▸ List.length_pos_iff.2 hne)
  obtain ⟨d, c₁, hbody, hwrites⟩ := (Writes.start setting style c).body_of_holds bytes 0 htop hholds
  rw [Nat.zero_add, List.nil_append] at hwrites
  obtain ⟨c', hflush, hprinted⟩ := hwrites.keepEnd.printed (stands_signs _ _ bytes 0)
  exact ⟨c', by rw [bind_ok hbody, hflush], hprinted⟩

/-- Where no byte ends the message, it is all that is left of the block. -/
theorem terminated_of_whole {last : Draft → UInt8 → Draft} (hlength : bytes.length = c.remaining)
    (hends : ∀ i, ¬EndsAt setting.charset.operands ends bytes i)
    (hholds : setting.image.Holds c.position bytes) :
    terminated setting style ends last c = style.body setting bytes.length 0 {} c := by
  rw [terminated, bind_ok (lengthUpTo_of_whole hlength hends hholds)]
  exact congrFun (bind_pure (style.body setting bytes.length 0 {})) c

/-- Where a byte ends the message, the block ends there too. -/
theorem terminated_of_ended {last : Draft → UInt8 → Draft} {front : List UInt8} {b : UInt8}
    (hlast : ∀ d, last d b = d.add (style.lastSign setting.charset t b))
    (hroom : front.length < c.remaining)
    (hends : EndsAt setting.charset.operands t.ends (front ++ [b]) front.length)
    (hholds : setting.image.Holds c.position (front ++ [b])) :
    ∃ d c', terminated setting style t.ends last c = .ok d c' ∧
      Writes setting style
        (c.setBlockEnd (c.currentAddress + UInt16.ofNat (front.length + 1) - 1))
        (style.signs setting.charset 0 front ++ [style.lastSign setting.charset t b])
        (front.length + 1) d c' := by
  have htop := position_add_remaining (Nat.zero_lt_of_lt hroom)
  have hlength := lengthUpTo_of_ended hroom hends hholds
  obtain ⟨hfront, hbyte⟩ := Image.holds_append.1 hholds
  obtain ⟨d₁, c₁, hbody, hwrites⟩ :=
    (Writes.start setting style c).body_of_holds front 0 (fun _ => by omega) hfront
  rw [Nat.zero_add, List.nil_append] at hwrites
  obtain ⟨d₂, c₂, hnext, hwrites⟩ :=
    hwrites.nextByte_of_byte? (by omega) hbyte.1 (style.lastSign setting.charset t b)
  refine ⟨_, _, ?_, hwrites.endBlockHere⟩
  rw [terminated, bind_ok hlength]
  simp only
  rw [bind_ok hbody]
  simp only [if_true]
  rw [bind_ok hnext]
  simp only
  rw [bind_ok (modify_apply _ _), pure_apply, hlast]

/-- **A message that is in the buffer is put on lines.** -/
theorem run_of_message (style : Style) (ht : t = .raw ∨ t = .zero ∨ t = .highBit)
    (hmessage : IsMessage setting.charset.operands t.ends c.remaining bytes)
    (hholds : setting.image.Holds c.position bytes) :
    ∃ last c', run setting style t c = .ok () c' ∧ Printed setting style c bytes last c' ∧
      EndsBlock c bytes last := by
  rcases ht with rfl | ht
  · cases hmessage with
    | ended hroom hends =>
      obtain ⟨b, -, hfalse⟩ := hends.ends_getElem?
      cases hfalse
    | whole hlength hends =>
      obtain ⟨c', hrun, hprinted⟩ := body_printed style hlength hholds
      rw [hlength] at hrun
      exact ⟨_, c', hrun, hprinted, .inl ⟨hlength, rfl⟩⟩
  · obtain ⟨last, hlast, hrun⟩ := run_eq_terminated setting style ht
    rw [hrun]
    cases hmessage with
    | whole hlength hends =>
      obtain ⟨c', hbody, hprinted⟩ := body_printed style hlength hholds
      refine ⟨_, c', ?_, hprinted, .inl ⟨hlength, rfl⟩⟩
      rwa [bind_apply, terminated_of_whole hlength hends hholds, ← bind_apply]
    | @ended front b hroom hends =>
      obtain ⟨d, c₁, hterminated, hwrites⟩ :=
        terminated_of_ended (hlast · b) hroom hends hholds
      obtain ⟨b', hb', hend⟩ := hends.ends_getElem?
      rw [List.getElem?_concat_length, Option.some.injEq] at hb'
      have hstands : List.Forall₂ (Stands setting.charset style) (front ++ [b])
          (style.signs setting.charset 0 front ++ [style.lastSign setting.charset t b]) :=
        List.rel_append (stands_signs _ _ front 0)
          (.cons (stands_lastSign _ _ (hb' ▸ hend)) .nil)
      rw [show front.length + 1 = (front ++ [b]).length by simp] at hwrites
      obtain ⟨c', hflush, hprinted⟩ := hwrites.printed hstands
      exact ⟨_, c', by rw [bind_ok hterminated, hflush], hprinted, .inr ⟨by simp, rfl⟩⟩

/-- **A run that ends well has found a message in the buffer.** -/
theorem message_of_run (ht : t = .raw ∨ t = .zero ∨ t = .highBit)
    (hrun : run setting style t c = .ok () c') :
    ∃ bytes, setting.image.Holds c.position bytes ∧
      IsMessage setting.charset.operands t.ends c.remaining bytes := by
  rcases ht with rfl | ht
  · have hraw : (style.body setting c.remaining 0 {} >>= style.flush setting) c = .ok () c' := hrun
    obtain ⟨d, c₁, hbody, -⟩ := bind_eq_ok hraw
    obtain ⟨bytes, hlength, hholds, -⟩ := (Writes.start setting style c).body_eq_ok hbody
    refine ⟨bytes, ?_, .whole hlength fun i hi => ?_⟩
    · rcases Nat.eq_zero_or_pos c.remaining with hzero | hpos
      · rw [List.length_eq_zero_iff.1 (hlength.trans hzero)]
        trivial
      · have htop := position_add_remaining hpos
        rwa [Nat.add_zero, List.take_of_length_le (by omega)] at hholds
    · obtain ⟨b, -, hfalse⟩ := hi.ends_getElem?
      cases hfalse
  · obtain ⟨last, -, hterminated⟩ := run_eq_terminated setting style ht
    rw [hterminated] at hrun
    obtain ⟨d, c₁, hrun, -⟩ := bind_eq_ok hrun
    obtain ⟨length, c₂, hlength, -⟩ := bind_eq_ok hrun
    exact lengthUpTo_eq_ok hlength

end Message
end Routine
end Disassembly
