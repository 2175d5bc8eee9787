/-
# Messages on lines

A message with a terminator is shown up to its terminator, and the block ends there
(`messageDump_ends`). While a message is written, the line under construction is a page: the context
at its start and the signs it has so far. A step adds the sign of a byte, and turns the page before
if it is full (`nextByte_eq`); a run adds the signs of all bytes (`body_eq`); and the pages that were
turned are the pieces of the message, so many signs in each (`flushed_foldl_add`). The search for the
end and the run go by the same tokens.
-/

import Disassembly.Proofs.Routine.BlockDump
import Disassembly.Proofs.Routine.MessageEnd
import Disassembly.Proofs.Routine.MessageText

namespace Disassembly
namespace Routine

open Script

namespace Message

/-! ### The signs of a message -/

namespace Style

variable (charset : CharacterSet) (style : Style)

/-- A byte as a number. -/
def numberSign (b : UInt8) : Sign := .other (Numeral.operand b.toNat .byte style.base false)

/-- A byte that is not a parameter: a character if it is printable. -/
def sign (b : UInt8) : Sign :=
  match charset.glyph b with
  | .printable c => .char c
  | _ => style.numberSign b

/-- The signs of bytes, the first of which are parameters. -/
def signs : Nat → List UInt8 → List Sign
  | _, [] => []
  | parameters + 1, b :: bytes => style.numberSign b :: signs parameters bytes
  | 0, b :: bytes => style.sign charset b :: signs (charset.operands b) bytes

/-- A parameter is shown as a number. -/
theorem body_parameter (setting : Setting) (count parameters : Nat) (d : Draft) :
    style.body setting (count + 1) (parameters + 1) d =
      (style.nextByte setting d >>= fun r =>
        style.body setting count parameters (r.2.add (style.numberSign r.1))) := rfl

/-- A byte that is not a parameter is shown, and its parameters follow. -/
theorem body_token (setting : Setting) (count : Nat) (d : Draft) :
    style.body setting (count + 1) 0 d =
      (style.nextByte setting d >>= fun r =>
        style.body setting count (setting.charset.operands r.1)
          (r.2.add (style.sign setting.charset r.1))) := by
  rw [body]
  congr 1
  funext ⟨b, d⟩
  simp only [CharacterSet.operands, sign]
  cases setting.charset.glyph b <;> rfl

/-- The byte that ends a message: a character plus 128 if bit 7 ends it, and a number otherwise. -/
def lastSign (t : Terminator) (b : UInt8) : Sign :=
  match t, charset.glyph (b &&& 0x7F) with
  | .highBit, .printable c =>
    .other ("\"" ++ Draft.quotedChar c ++ "\"+" ++ Numeral.operand 0x80 .byte style.base false)
  | _, _ => style.numberSign b

/-- A row with the given signs. -/
def row (separator : String) (signs : List Sign) : Row :=
  ⟨style.title ++ separator ++ Sign.lineText signs, signs.length⟩

end Style

/-! ### Pages -/

/-- A line of a message under construction. -/
structure Page where
  /-- The context at the start of the line. -/
  start : Context
  signs : List Sign

namespace Page

/-- The context with the bytes of the line read. -/
def context (p : Page) : Context := p.start.advance p.signs.length

section

variable (setting : Setting) (style : Style) (p : Page)

/-- The context with the line written, unless it is empty. -/
def flushed : Context :=
  if p.signs.isEmpty then p.start
  else p.start.writeRow setting (style.row setting.scope.separator p.signs)

/-- The page that the next sign goes on: a new one if this one is full. -/
def turned : Page :=
  if 0 < style.perLine ∧ style.perLine ≤ p.signs.length then ⟨p.flushed setting style, []⟩ else p

/-- The page with another sign. -/
def add (s : Sign) : Page := ⟨(p.turned setting style).start, (p.turned setting style).signs ++ [s]⟩

end

/-- Bytes of the block are left behind those of the page. -/
def Faces (setting : Setting) (p : Page) (bytes : List UInt8) : Prop :=
  ∃ shown : List UInt8, shown.length = p.signs.length ∧ p.start.Faces setting (shown ++ bytes)

variable {setting : Setting} {style : Style} {p : Page} {b : UInt8} {bytes : List UInt8}

theorem flushed_of_ne_nil (hne : p.signs ≠ []) : p.flushed setting style =
    p.start.writeRow setting (style.row setting.scope.separator p.signs) :=
  if_neg (by simpa using hne)

/-- The position is behind the bytes of the page. -/
theorem Faces.position_context (h : p.Faces setting bytes) :
    p.context.position = p.start.lineStart.toNat + p.signs.length := by
  obtain ⟨shown, hlength, hfaces⟩ := h
  have hblock := hfaces.length
  have hend : p.start.blockEnd.toNat < 0xFFFF := UInt16.lt_iff_toNat_lt.1 hfaces.blockEnd
  rw [List.length_append] at hblock
  change p.start.lineStart.toNat + (p.start.advance p.signs.length).lineOffset.toNat = _
  rw [p.start.toNat_lineOffset_advance _ (by rw [hfaces.lineOffset, UInt16.toNat_zero]; omega),
    hfaces.lineOffset, UInt16.toNat_zero, Nat.zero_add]

/-- The next byte is behind those of the page. -/
theorem Faces.byte? (h : p.Faces setting (b :: bytes)) :
    setting.image.byte? p.context.position = some b := by
  rw [h.position_context]
  obtain ⟨shown, hlength, hfaces⟩ := h
  exact hfaces.byte?_of_getElem? (by simp [← hlength])

/-- A page that is turned is followed by the same bytes. -/
theorem Faces.turned (h : p.Faces setting bytes) (style : Style) :
    (p.turned setting style).Faces setting bytes := by
  obtain ⟨shown, hlength, hfaces⟩ := h
  unfold Page.turned
  split_ifs with hfull
  · have hne : p.signs ≠ [] := List.length_pos_iff.1 (by omega)
    refine ⟨[], rfl, ?_⟩
    rw [flushed_of_ne_nil hne]
    exact hfaces.writeRow hlength.symm
  · exact ⟨shown, hlength, hfaces⟩

/-- With a sign for the next byte a page is followed by the other bytes. -/
theorem Faces.add (h : p.Faces setting (b :: bytes)) (style : Style) (s : Sign) :
    (p.add setting style s).Faces setting bytes := by
  obtain ⟨shown, hlength, hfaces⟩ := h.turned style
  refine ⟨shown ++ [b], ?_, ?_⟩
  · rw [List.length_append, hlength, Page.add, List.length_append]
    rfl
  · rw [List.append_assoc]
    exact hfaces

theorem context_add (s : Sign) :
    (p.add setting style s).context = (p.turned setting style).context.advance 1 := by
  rw [context, context, Context.advance_advance, Page.add, List.length_append]
  rfl

/-- **A page is written as the row of its signs.** -/
theorem flush_eq (hline : p.start.line = none) (hoffset : p.start.lineOffset = 0) :
    style.flush setting (.ofSigns p.signs) p.context = .ok () (p.flushed setting style) := by
  obtain ⟨c, signs⟩ := p
  have hoffset : c.lineOffset = 0 := hoffset
  by_cases hne : signs = []
  · subst hne
    change EStateM.Result.ok () (c.advance 0) = .ok () c
    rw [Context.advance_zero]
  · obtain ⟨hitems, htext⟩ := Draft.closeQuote_ofSigns hne
    have hopen : ((((c.advance signs.length).startLine setting).pushText setting
        style.title).pushSeparator setting).pushText setting (Sign.lineText signs) =
        c.drafted setting (style.title ++ setting.scope.separator ++ Sign.lineText signs)
          signs.length := by
      rw [(c.advance signs.length).startLine_of_none setting hline, Context.pushSeparator,
        Context.pushText_of_some _ _ _ rfl, Context.pushText_of_some _ _ _ rfl,
        Context.pushText_of_some _ _ _ rfl, String.empty_append]
      simp only [Context.drafted, Context.advance, hoffset, UInt16.zero_add]
      rfl
    rw [flushed_of_ne_nil hne, Style.flush, if_neg hitems, modify_apply, htext]
    exact congrArg (fun c => EStateM.Result.ok () (Context.endLine setting c)) hopen

/-- A page is written in the same way if the block ends elsewhere. -/
theorem flush_setBlockEnd (setting : Setting) (style : Style) (hline : p.start.line = none)
    (hoffset : p.start.lineOffset = 0) (last : UInt16) :
    style.flush setting (.ofSigns p.signs) (p.context.setBlockEnd last) =
      .ok () ((p.flushed setting style).setBlockEnd last) := by
  have hflushed : (⟨p.start.setBlockEnd last, p.signs⟩ : Page).flushed setting style =
      (p.flushed setting style).setBlockEnd last := by
    unfold flushed
    split <;> rfl
  rw [← hflushed]
  exact flush_eq (p := ⟨p.start.setBlockEnd last, p.signs⟩) hline hoffset

/-- A page that is full is written, and a new one is begun. -/
theorem wrap_eq (hline : p.start.line = none) (hoffset : p.start.lineOffset = 0) :
    style.wrap setting (.ofSigns p.signs) p.context =
      .ok (.ofSigns (p.turned setting style).signs) (p.turned setting style).context := by
  unfold Page.turned
  rw [Style.wrap, Draft.bytes_ofSigns]
  split_ifs with hfull
  · rw [bind_ok (flush_eq hline hoffset), pure_apply]
    change _ = EStateM.Result.ok _ ((p.flushed setting style).advance 0)
    rw [Context.advance_zero]
    rfl
  · rfl

/-- **The next byte goes on the page**, or on a new one if the page is full. -/
theorem nextByte_eq (style : Style) (h : p.Faces setting (b :: bytes)) (s : Sign) :
    style.nextByte setting (.ofSigns p.signs) p.context =
      .ok (b, .ofSigns (p.turned setting style).signs) (p.add setting style s).context := by
  have hbyte := (h.turned style).byte?
  obtain ⟨shown, hlength, hfaces⟩ := h
  rw [Style.nextByte, bind_ok (wrap_eq hfaces.line hfaces.lineOffset),
    bind_ok (Routine.nextByte_eq hbyte), pure_apply, context_add]

/-- **The signs of the bytes of a message are added to the page.** -/
theorem body_eq (setting : Setting) (style : Style) (rest : List UInt8) :
    ∀ (bytes : List UInt8) (parameters : Nat) (p : Page), p.Faces setting (bytes ++ rest) →
      let q := (style.signs setting.charset parameters bytes).foldl (Page.add setting style) p
      style.body setting bytes.length parameters (.ofSigns p.signs) p.context =
        .ok (.ofSigns q.signs) q.context ∧ q.Faces setting rest := by
  intro bytes
  induction bytes with
  | nil =>
    intro parameters p h
    exact ⟨rfl, h⟩
  | cons b bytes ih =>
    intro parameters p h
    -- whatever the sign of the byte is, the rest goes on from the page with that sign
    have hrest (s : Sign) (parameters : Nat) := ih parameters (p.add setting style s) (h.add style s)
    have hadd (s : Sign) : Draft.ofSigns (p.add setting style s).signs =
        (Draft.ofSigns (p.turned setting style).signs).add s := Draft.ofSigns_concat _ s
    simp only [hadd] at hrest
    cases parameters with
    | succ parameters =>
      rw [List.length_cons, Style.body_parameter,
        bind_ok (nextByte_eq style h (style.numberSign b))]
      exact hrest (style.numberSign b) parameters
    | zero =>
      rw [List.length_cons, Style.body_token,
        bind_ok (nextByte_eq style h (style.sign setting.charset b))]
      exact hrest (style.sign setting.charset b) (setting.charset.operands b)

/-- Adding signs does not move the end of the block. -/
theorem blockEnd_foldl_add (setting : Setting) (style : Style) (signs : List Sign) (p : Page) :
    (signs.foldl (Page.add setting style) p).start.blockEnd = p.start.blockEnd := by
  induction signs generalizing p with
  | nil => rfl
  | cons s signs ih =>
    rw [List.foldl_cons, ih, Page.add, Page.turned]
    split_ifs with hfull
    · rw [flushed_of_ne_nil (List.length_pos_iff.1 (by omega))]
      rfl
    · rfl

/-- **The pages of a message are its pieces**, so many signs on each. -/
theorem flushed_foldl_add (signs : List Sign) :
    ∀ p : Page, (style.perLine = 0 ∨ p.signs.length ≤ style.perLine) →
      (signs.foldl (Page.add setting style) p).flushed setting style =
        ((Dump.chunks style.perLine (p.signs ++ signs)).map
          (style.row setting.scope.separator)).foldl (Context.writeRow setting) p.start := by
  induction signs with
  | nil =>
    intro p hroom
    rw [List.append_nil, List.foldl_nil]
    by_cases hne : p.signs = []
    · rw [flushed, hne, Dump.chunks]
      rfl
    · have hchunks : Dump.chunks style.perLine p.signs = [p.signs] := by
        rcases hroom with hzero | hle
        · obtain ⟨s, signs, hsigns⟩ := List.exists_cons_of_ne_nil hne
          rw [hsigns, Dump.chunks, if_pos hzero]
        · exact Dump.chunks_of_length_le hne hle
      rw [flushed_of_ne_nil hne, hchunks]
      rfl
  | cons s signs ih =>
    intro p hroom
    rw [List.foldl_cons]
    by_cases hfull : 0 < style.perLine ∧ style.perLine ≤ p.signs.length
    · -- a full page is a piece of its own, and the sign begins the next one
      have hne : p.signs ≠ [] := List.length_pos_iff.1 (by omega)
      have hadd : p.add setting style s = ⟨p.flushed setting style, [s]⟩ := by
        rw [Page.add, Page.turned, if_pos hfull]
        rfl
      have hroom' : style.perLine = 0 ∨ [s].length ≤ style.perLine := Or.inr hfull.1
      rw [hadd, ih _ hroom', Dump.chunks_append hne (by omega), List.map_cons,
        List.foldl_cons, flushed_of_ne_nil hne]
      rfl
    · have hadd : p.add setting style s = ⟨p.start, p.signs ++ [s]⟩ := by
        rw [Page.add, Page.turned, if_neg hfull]
      rw [hadd, ih _ (by rw [List.length_append, List.length_singleton]; omega), List.append_assoc]
      rfl

end Page

/-! ### Messages with a terminator -/

variable {setting : Setting} {style : Style} {c : Context} {bytes : List UInt8}
  {ends : UInt8 → Bool} {last : Draft → UInt8 → Draft}

/-- A message starts with an empty page. -/
theorem body_start (style : Style) {front rest : List UInt8}
    (hfaces : c.Faces setting (front ++ rest)) :
    let q := (style.signs setting.charset 0 front).foldl (Page.add setting style) ⟨c, []⟩
    style.body setting front.length 0 {} c = .ok (.ofSigns q.signs) q.context ∧
      q.Faces setting rest := by
  have hstart : (⟨c, []⟩ : Page).context = c := c.advance_zero
  have hbody := Page.body_eq setting style rest front 0 ⟨c, []⟩ ⟨[], rfl, hfaces⟩
  rw [hstart] at hbody
  exact hbody

/-- The context with the signs of a message on its lines. -/
def written (setting : Setting) (style : Style) (c : Context) (signs : List Sign) : Context :=
  ((Dump.chunks style.perLine signs).map (style.row setting.scope.separator)).foldl
    (Context.writeRow setting) c

theorem flushed_empty (signs : List Sign) :
    (signs.foldl (Page.add setting style) ⟨c, []⟩).flushed setting style =
      written setting style c signs :=
  Page.flushed_foldl_add signs ⟨c, []⟩ (Or.inr (Nat.zero_le _))

/-- **The length of a message is found by its tokens.** -/
theorem lengthUpTo_eq (ends : UInt8 → Bool) (hfaces : c.Faces setting bytes) :
    lengthUpTo setting ends c =
      .ok (match endIndex? setting.charset.operands ends 0 bytes with
        | some n => (n, true)
        | none => (bytes.length, false)) c := by
  have haddress : c.currentAddress.toNat = c.lineStart.toNat := by
    rw [Context.currentAddress, hfaces.lineOffset, UInt16.add_zero]
  have hfind := findEnd_eq setting ends c.lineStart.toNat c bytes 0 0 hfaces.holds
  rw [lengthUpTo, bind_ok (get_apply c), haddress, hfaces.remaining, bind_ok hfind]
  cases endIndex? setting.charset.operands ends 0 bytes with
  | none => rfl
  | some n =>
    simp only [Option.map_some, Nat.zero_add]
    rfl

/-- **Without a terminator the rest of the block is shown.** -/
theorem terminated_of_none (hfaces : c.Faces setting bytes)
    (hend : endIndex? setting.charset.operands ends 0 bytes = none) :
    (terminated setting style ends last >>= style.flush setting) c =
      .ok () (written setting style c (style.signs setting.charset 0 bytes)) := by
  have hlength := lengthUpTo_eq ends hfaces
  rw [hend] at hlength
  rw [← List.append_nil bytes] at hfaces
  obtain ⟨hbody, shown, -, hleft⟩ := body_start style hfaces
  generalize hq : (style.signs setting.charset 0 bytes).foldl (Page.add setting style) ⟨c, []⟩ = q
    at hbody hleft
  have hrun : terminated setting style ends last c = .ok (.ofSigns q.signs) q.context := by
    rw [terminated, bind_ok hlength]
    exact bind_ok hbody
  rw [bind_ok hrun, Page.flush_eq hleft.line hleft.lineOffset, ← hq, flushed_empty]

/-- The byte in front of the position is made the end of the block. -/
theorem endBlockHere_eq {last : UInt16} (h : c.position = last.toNat + 1) :
    c.endBlockHere = c.setBlockEnd last := by
  have hend : UInt16.ofNat (c.position + 0xFFFF) = last := by
    apply UInt16.toNat_inj.1
    have hlast := last.toNat_lt
    rw [h, UInt16.toNat_ofNat']
    omega
  have hposition : ¬c.position = 0 := by omega
  rw [Context.endBlockHere, Context.setBlockEnd, hend, decide_eq_false hposition]

/-- With the terminator on it, the page ends behind the terminator. -/
theorem position_add {front rest : List UInt8} {b : UInt8} {signs : List Sign} {q : Page}
    (hfaces : c.Faces setting (front ++ b :: rest))
    (hq : signs.foldl (Page.add setting style) ⟨c, []⟩ = q) (hleft : q.Faces setting (b :: rest))
    (s : Sign) :
    (q.add setting style s).context.position =
      (c.lineStart + UInt16.ofNat front.length).toNat + 1 := by
  have hend : (q.add setting style s).start.blockEnd = c.blockEnd := by
    have hsigns := Page.blockEnd_foldl_add setting style (signs ++ [s]) ⟨c, []⟩
    rwa [List.foldl_append, hq] at hsigns
  have hpage := hleft.add style s
  rw [hpage.position_context, hfaces.toNat_add (by simp)]
  obtain ⟨shown, hshown, hrest⟩ := hpage
  have hne : shown ≠ [] := by
    rw [← List.length_pos_iff, hshown, Page.add, List.length_append]
    exact Nat.succ_pos _
  -- both count back from the end of the block, which has not moved yet
  obtain ⟨hstop, -⟩ := hfaces.stop (by simp)
  obtain ⟨hstop', -⟩ := hrest.stop (by simp [hne])
  rw [hend] at hstop'
  rw [List.length_append] at hstop hstop'
  rw [List.length_cons] at hstop
  omega

/-- **With a terminator the message is shown up to it, and the block ends there.** -/
theorem terminated_of_some {front rest : List UInt8} {b : UInt8} {s : Sign}
    (hfaces : c.Faces setting (front ++ b :: rest))
    (hend : endIndex? setting.charset.operands ends 0 (front ++ b :: rest) = some front.length)
    (hlast : ∀ d, last d b = d.add s) :
    (terminated setting style ends last >>= style.flush setting) c =
      .ok () ((written setting style c (style.signs setting.charset 0 front ++ [s])).setBlockEnd
        (c.lineStart + UInt16.ofNat front.length)) := by
  have hlength := lengthUpTo_eq ends hfaces
  rw [hend] at hlength
  obtain ⟨hbody, hleft⟩ := body_start style hfaces
  generalize hq : (style.signs setting.charset 0 front).foldl (Page.add setting style) ⟨c, []⟩ = q
    at hbody hleft
  have hnext := Page.nextByte_eq style hleft s
  have hposition := position_add hfaces hq hleft s
  have hrun : terminated setting style ends last c =
      .ok (.ofSigns (q.add setting style s).signs) ((q.add setting style s).context.setBlockEnd
        (c.lineStart + UInt16.ofNat front.length)) := by
    rw [← endBlockHere_eq hposition, terminated, bind_ok hlength]
    simp only
    rw [bind_ok hbody]
    simp only [if_true]
    rw [bind_ok hnext]
    simp only
    rw [bind_ok (modify_apply _ _), pure_apply, hlast, Page.add, Draft.ofSigns_concat]
  obtain ⟨shown, -, hleft⟩ := hleft.add style s
  have hflush := Page.flush_setBlockEnd setting style hleft.line hleft.lineOffset
    (c.lineStart + UInt16.ofNat front.length)
  rw [bind_ok hrun, hflush, ← flushed_empty, List.foldl_append, hq]
  rfl

/-! ### Where messages end -/

/-- The signs of a message stand on lines, one behind the other and so many on each, and nothing
remains of the block behind them. -/
structure Shows (setting : Setting) (style : Style) (signs : List Sign) (c c' : Context) : Prop where
  rows : ∃ pieces, Dump.IsCut style.perLine signs pieces ∧
    c.Wrote setting (pieces.map (style.row setting.scope.separator)) c'
  lineStart : c'.lineStart.toNat = c.lineStart.toNat + signs.length
  remaining : c'.remaining = 0

/-- The signs of a message are on lines when they are written. -/
theorem wrote_written (style : Style) (signs : List Sign) (hfaces : c.Faces setting bytes)
    (hlength : signs.length ≤ bytes.length) :
    c.Wrote setting ((Dump.chunks style.perLine signs).map (style.row setting.scope.separator))
        (written setting style c signs) ∧
      (written setting style c signs).lineStart.toNat = c.lineStart.toNat + signs.length := by
  have htotal : Row.total ((Dump.chunks style.perLine signs).map
      (style.row setting.scope.separator)) = signs.length := by
    rw [Dump.total_map_chunks fun piece => (Nat.one_mul piece.length).symm, Nat.one_mul]
  have htop : c.lineStart.toNat + signs.length < 0x10000 := by
    have hblock := hfaces.length
    have hend : c.blockEnd.toNat < 0xFFFF := UInt16.lt_iff_toNat_lt.1 hfaces.blockEnd
    have hstart := c.lineStart.toNat_lt
    omega
  have hwrote := Context.wrote_foldl setting _ hfaces.line hfaces.lineOffset hfaces.spacing
    (by rw [htotal]; exact htop)
  refine ⟨hwrote, ?_⟩
  rw [← htotal]
  exact hwrote.lineStart

/-- Writing a message does not move the end of the block. -/
theorem written_blockEnd (setting : Setting) (style : Style) (c : Context) (signs : List Sign) :
    (written setting style c signs).blockEnd = c.blockEnd ∧
      (written setting style c signs).emptied = c.emptied :=
  Context.blockEnd_foldl_writeRow setting _ c

/-- There is a sign for each byte. -/
theorem Style.length_signs (charset : CharacterSet) (style : Style) :
    ∀ (parameters : Nat) (bytes : List UInt8),
      (style.signs charset parameters bytes).length = bytes.length
  | _, [] => rfl
  | parameters + 1, _ :: bytes =>
    congrArg (· + 1) (length_signs charset style parameters bytes)
  | 0, b :: bytes => congrArg (· + 1) (length_signs charset style (charset.operands b) bytes)

end Message

/-- Whether a byte ends a message: a zero byte, or one with bit 7 set. -/
def Terminator.ends : Terminator → UInt8 → Bool
  | .zero, b => b = 0
  | .highBit, b => b.toNat.testBit 7
  | _, _ => false

/-- A message dump with these arguments has this terminator and is written in this style. -/
structure Arguments.AsksMessage (a : Arguments) (current : Base) (t : Terminator)
    (style : Message.Style) : Prop where
  terminator : ∃ name, a.string "terminator" 0 "raw" = .ok name ∧ Terminator.ofName? name = some t
  perLine : a.count "per_line" 1 0 0xFFFF = .ok style.perLine
  title : a.string "title" 2 t.defaultTitle = .ok style.title
  base : style.base = current

variable {setting : Setting} {c : Context} {bytes : List UInt8} {a : Arguments} {t : Terminator}
  {style : Message.Style}

theorem messageDump_eq (h : a.AsksMessage c.format.base t style) :
    messageDump setting a c = Message.run setting style t c := by
  obtain ⟨name, hname, ht⟩ := h.terminator
  rw [messageDump, hname, ofExcept_ok, bind_ok (pure_apply _ _), ht]
  simp only
  rw [bind_ok (pure_apply _ _), h.perLine, ofExcept_ok, bind_ok (pure_apply _ _), h.title, ofExcept_ok,
    bind_ok (pure_apply _ _), bind_ok (get_apply c), ← h.base]

namespace Message

/-- A message with one of the two terminators is scanned for it, and its last byte is written
accordingly. -/
theorem run_eq_terminated (setting : Setting) (style : Style) (ht : t = .zero ∨ t = .highBit) :
    ∃ last : Draft → UInt8 → Draft,
      (∀ d b, last d b = d.add (style.lastSign setting.charset t b)) ∧
        run setting style t = (terminated setting style t.ends last >>= style.flush setting) := by
  rcases ht with rfl | rfl
  · exact ⟨fun d b => style.number d b.toNat .byte, fun d b => rfl, rfl⟩
  · have hends : (fun b : UInt8 => decide (0x80 ≤ b)) = Terminator.highBit.ends := by
      funext b
      have hb := b.toNat_lt
      rw [Terminator.ends, Nat.testBit_eq_decide_div_mod_eq, decide_eq_decide,
        UInt8.le_iff_toNat_le]
      change 128 ≤ b.toNat ↔ _
      omega
    refine ⟨lastChar setting style, fun d b => ?_, ?_⟩
    · simp only [lastChar, Style.lastSign]
      cases setting.charset.glyph (b &&& 0x7F) with
      | printable c => simp only [Draft.marked, Draft.add]
      | _ => simp only [Style.number, Style.numberSign, Draft.add]; rfl
    · rw [← hends]
      rfl

end Message

/-- Nothing remains of a block that ends in front of the line. -/
theorem remaining_eq_zero (hempty : c.emptied = false) (hoffset : c.lineOffset = 0)
    (hend : c.blockEnd.toNat + 1 ≤ c.lineStart.toNat) : c.remaining = 0 := by
  rw [Context.remaining, Context.resume, hempty, Context.position, hoffset]
  exact Nat.sub_eq_zero_of_le hend

/-- **A message ends exactly at its terminator.** Over a block that ends before the last address, a
message that ends with a zero byte or with bit 7 is shown up to the byte that ends it, so many bytes
on each line, and the block ends there. Where no byte of the block ends it, it is shown up to the end
of the block, which stays where it is. -/
theorem messageDump_ends (hfaces : c.Faces setting bytes)
    (hoperands : setting.charset.operands = Spectrum.operands) (ht : t = .zero ∨ t = .highBit)
    (ha : a.AsksMessage c.format.base t style) :
    (∀ i, Message.EndsAt Spectrum.operands t.ends bytes i →
      ∃ front b rest c', bytes = front ++ b :: rest ∧ front.length = i ∧
        messageDump setting a c = .ok () c' ∧
        Message.Shows setting style
          (style.signs setting.charset 0 front ++ [style.lastSign setting.charset t b]) c c' ∧
        c'.blockEnd.toNat = c.lineStart.toNat + i) ∧
    ((∀ i, ¬Message.EndsAt Spectrum.operands t.ends bytes i) →
      ∃ c', messageDump setting a c = .ok () c' ∧
        Message.Shows setting style (style.signs setting.charset 0 bytes) c c' ∧
        c'.blockEnd = c.blockEnd) := by
  obtain ⟨last, hlast, hrun⟩ := Message.run_eq_terminated setting style ht
  rw [messageDump_eq ha, hrun, ← hoperands]
  constructor
  · intro i hi
    obtain ⟨front, b, rest, rfl, rfl⟩ := hi.exists_append
    have hend := Message.endIndex?_eq_some_iff.2 hi
    have hlength : (style.signs setting.charset 0 front ++
        [style.lastSign setting.charset t b]).length = front.length + 1 := by
      rw [List.length_append, Message.Style.length_signs]
      rfl
    have haddress := hfaces.toNat_add (n := front.length) (by simp)
    obtain ⟨hwrote, hstart⟩ := Message.wrote_written style
      (style.signs setting.charset 0 front ++ [style.lastSign setting.charset t b]) hfaces
      (by rw [hlength]; simp)
    refine ⟨front, b, rest, _, rfl, rfl,
      Message.terminated_of_some hfaces hend (hlast · b), ⟨⟨_, Dump.isCut_chunks _ _,
        hwrote.lines, hwrote.lineStart, hwrote.line, hwrote.lineOffset, hwrote.format⟩, hstart, ?_⟩,
      haddress⟩
    refine remaining_eq_zero rfl hwrote.lineOffset ?_
    rw [hlength] at hstart
    change (c.lineStart + UInt16.ofNat front.length).toNat + 1 ≤ _
    rw [haddress]
    exact Nat.le_of_eq (by rw [Nat.add_assoc]; exact hstart.symm)
  · intro hnone
    have hend : Message.endIndex? setting.charset.operands t.ends 0 bytes = none :=
      Option.eq_none_iff_forall_ne_some.2 fun i hi => hnone i (Message.endIndex?_eq_some_iff.1 hi)
    have hlength := style.length_signs setting.charset 0 bytes
    obtain ⟨hwrote, hstart⟩ := Message.wrote_written style _ hfaces (Nat.le_of_eq hlength)
    obtain ⟨hlast, hempty⟩ :=
      Message.written_blockEnd setting style c (style.signs setting.charset 0 bytes)
    refine ⟨_, Message.terminated_of_none hfaces hend,
      ⟨⟨_, Dump.isCut_chunks _ _, hwrote⟩, hstart, ?_⟩, hlast⟩
    refine remaining_eq_zero (hempty.trans hfaces.emptied) hwrote.lineOffset ?_
    have hblock := hfaces.length
    rw [hlast, hstart, hlength]
    omega

/-- A message in a buffer: a zero byte ends it, but not the one behind the control code. -/
def messageBytes : Setting :=
  ⟨⟨#[0x48, 0x69, 0x16, 0x00, 0x05, 0x21, 0x00, 0x78], 0, 0x9000, 8, by decide, by decide⟩, {},
    Spectrum.charset, Spectrum.floats⟩

/-- A script over the message. -/
def messageContext : Context := .start messageBytes (.ofList []) ∅ 0x9000 0x9007

/-- The message on lines of three bytes up to the zero byte at index six, and on one line up to the
end of the block, where bit 7 is set nowhere. -/
theorem messageDump_ends_messageBytes :
    (∃ front b rest c', [0x48, 0x69, 0x16, 0x00, 0x05, 0x21, 0x00, 0x78] = front ++ b :: rest ∧
      front.length = 6 ∧
      messageDump messageBytes ⟨"MessageDump", [.string "zero", .int 3], []⟩ messageContext =
        .ok () c' ∧
      Message.Shows messageBytes ⟨"DM0", .hex, 3⟩
        (Message.Style.signs Spectrum.charset ⟨"DM0", .hex, 3⟩ 0 front ++
          [Message.Style.lastSign Spectrum.charset ⟨"DM0", .hex, 3⟩ .zero b]) messageContext c' ∧
      c'.blockEnd.toNat = 0x9000 + 6) ∧
    ∃ c', messageDump messageBytes
        ⟨"MessageDump", [], [("terminator", .string "highbit"), ("title", .string "TEXT")]⟩
        messageContext = .ok () c' ∧
      Message.Shows messageBytes ⟨"TEXT", .hex, 0⟩
        (Message.Style.signs Spectrum.charset ⟨"TEXT", .hex, 0⟩ 0
          [0x48, 0x69, 0x16, 0x00, 0x05, 0x21, 0x00, 0x78]) messageContext c' ∧
      c'.blockEnd = 0x9007 := by
  have hfaces : messageContext.Faces messageBytes
      [0x48, 0x69, 0x16, 0x00, 0x05, 0x21, 0x00, 0x78] :=
    ⟨rfl, rfl, rfl, rfl, by decide, by decide, ⟨rfl, rfl, rfl, rfl, rfl, rfl, rfl, rfl, trivial⟩⟩
  have hzero : Terminator.ofName? "zero" = some .zero := by
    have hname : "zero".toLower = "zero" := by decide +kernel
    simp only [Terminator.ofName?, hname]
  have hhighBit : Terminator.ofName? "highbit" = some .highBit := by
    have hname : "highbit".toLower = "highbit" := by decide +kernel
    simp only [Terminator.ofName?, hname]
  have hends : Message.EndsAt Spectrum.operands Terminator.zero.ends
      [0x48, 0x69, 0x16, 0x00, 0x05, 0x21, 0x00, 0x78] 6 :=
    Message.endIndex?_eq_some_iff.1 (by decide)
  have hnone : Message.endIndex? Spectrum.operands Terminator.highBit.ends 0
      [0x48, 0x69, 0x16, 0x00, 0x05, 0x21, 0x00, 0x78] = none := by decide
  refine ⟨(messageDump_ends hfaces Spectrum.operands_charset (Or.inl rfl)
    ⟨⟨"zero", rfl, hzero⟩, rfl, rfl, rfl⟩).1 6 hends, ?_⟩
  refine (messageDump_ends hfaces Spectrum.operands_charset (Or.inr rfl)
    ⟨⟨"highbit", rfl, hhighBit⟩, rfl, rfl, rfl⟩).2 fun i hi => ?_
  have hsome := Message.endIndex?_eq_some_iff.2 hi
  rw [hnone] at hsome
  cases hsome

end Routine
end Disassembly
