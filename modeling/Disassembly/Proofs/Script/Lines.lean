/-
# Lines of data, one behind the other

What a routine writes is told by its rows: the text of each line and how many bytes it shows. Written
out from an address on, each row is a line at the address of its first byte (`Row.lines`), and the
next line starts behind the bytes of all of them (`wrote_foldl`). Comments that fall on the bytes are
attached on the way, so lines are compared without them.
-/

import Disassembly.Proofs.Image.Window
import Disassembly.Proofs.Listing.Comments
import Disassembly.Script.Context

namespace Disassembly
namespace Script

/-- A line of data: its text, and how many bytes it shows. -/
structure Row where
  text : String
  bytes : Nat

namespace Row

/-- How many bytes rows show together. -/
def total : List Row → Nat
  | [] => 0
  | row :: rows => row.bytes + total rows

theorem total_append (rows rows' : List Row) : total (rows ++ rows') = total rows + total rows' := by
  induction rows with
  | nil => rw [List.nil_append, total, Nat.zero_add]
  | cons row rows ih => rw [List.cons_append, total, total, ih, Nat.add_assoc]

/-- The line of a row at an address, without comments. -/
def line (scope : Scope) (address : Nat) (row : Row) : Line :=
  { marker := some
      { address := UInt16.ofNat address
        base := scope.addressBase
        labels := scope.labels
        period := scope.labelPeriod
        data := true }
    body := .data row.text
    lineAfter := scope.lineAfterJump
    separator := scope.separator }

/-- The lines of rows from an address on, each at the address of its first byte, without comments. -/
def lines (scope : Scope) : Nat → List Row → List Line
  | _, [] => []
  | address, row :: rows => row.line scope address :: lines scope (address + row.bytes) rows

theorem lines_append (scope : Scope) (address : Nat) (rows rows' : List Row) :
    lines scope address (rows ++ rows') =
      lines scope address rows ++ lines scope (address + total rows) rows' := by
  induction rows generalizing address with
  | nil => rfl
  | cons row rows ih =>
    rw [List.cons_append, lines, lines, ih, total, List.cons_append, Nat.add_assoc]

end Row

namespace Context

variable {setting : Setting} {c c' c'' : Context} {bytes : List UInt8} {row : Row}
  {rows rows' : List Row}

/-- A line that a script ends is its text and its marker, and comments. -/
theorem bare_finishedLine (setting : Setting) (line : OpenLine)
    (comments : List Overlay.Comment) :
    (finishedLine setting line comments).bare =
      { marker := some line.marker
        body := .data line.text
        lineAfter := setting.scope.lineAfterJump
        separator := setting.scope.separator } := by
  unfold finishedLine
  rw [Line.bare_shown]
  rfl

/-- A script is at the start of a line, with none open and no blank lines asked for, and the bytes
from there to the end of its block are the given ones. The block ends before the last address, and
was not made empty. -/
structure Faces (setting : Setting) (c : Context) (bytes : List UInt8) : Prop where
  line : c.line = none
  lineOffset : c.lineOffset = 0
  spacing : c.format.spacing = 0
  emptied : c.emptied = false
  blockEnd : c.blockEnd < 0xFFFF
  length : bytes.length = c.blockEnd.toNat + 1 - c.lineStart.toNat
  holds : setting.image.Holds c.lineStart.toNat bytes

namespace Faces

/-- The position is the start of the line. -/
theorem position (h : c.Faces setting bytes) : c.position = c.lineStart.toNat := by
  rw [Context.position, h.lineOffset, UInt16.toNat_zero, Nat.add_zero]

/-- The bytes are those that remain of the block. -/
theorem remaining (h : c.Faces setting bytes) : c.remaining = bytes.length := by
  rw [Context.remaining, resume, h.emptied, h.position, h.length]
  rfl

/-- A block with bytes in it ends inside the address space. -/
theorem stop (h : c.Faces setting bytes) (hne : bytes ≠ []) :
    c.lineStart.toNat + bytes.length = c.blockEnd.toNat + 1 ∧
      c.lineStart.toNat + bytes.length < 0x10000 := by
  have hpos := List.length_pos_iff.2 hne
  have hlength := h.length
  have hend : c.blockEnd.toNat < 0xFFFF := UInt16.lt_iff_toNat_lt.1 h.blockEnd
  omega

/-- The byte at an index of the block is at that distance from the start of the line. -/
theorem byte?_of_getElem? (h : c.Faces setting bytes) {n : Nat} {b : UInt8}
    (hb : bytes[n]? = some b) : setting.image.byte? (c.lineStart.toNat + n) = some b := by
  obtain ⟨hn, rfl⟩ := List.getElem?_eq_some_iff.1 hb
  have hholds := h.holds
  rw [← List.take_append_drop n bytes, Image.holds_append, List.length_take,
    Nat.min_eq_left (Nat.le_of_lt hn), List.drop_eq_getElem_cons hn] at hholds
  exact hholds.2.1

/-- Addresses of the block and the one behind it do not wrap. -/
theorem toNat_add (h : c.Faces setting bytes) {n : Nat} (hn : n ≤ bytes.length) :
    (c.lineStart + UInt16.ofNat n).toNat = c.lineStart.toNat + n := by
  have hlength := h.length
  have hend : c.blockEnd.toNat < 0xFFFF := UInt16.lt_iff_toNat_lt.1 h.blockEnd
  have hstart := c.lineStart.toNat_lt
  rw [UInt16.toNat_add, UInt16.toNat_ofNat']
  omega

end Faces

/-- The context with a line at the line start under construction, which has a text so far and shows
so many bytes. -/
def drafted (setting : Setting) (c : Context) (text : String) (bytes : Nat) : Context :=
  { c with line := some ⟨c.marker setting, text⟩, lineOffset := UInt16.ofNat bytes }

/-- Write a row at the start of the line, and move past its bytes. -/
def writeRow (setting : Setting) (c : Context) (row : Row) : Context :=
  (c.drafted setting row.text row.bytes).endLine setting

/-- The second context comes from the first by writing rows, apart from what is pending and from the
end of the block. -/
structure Wrote (setting : Setting) (rows : List Row) (c c' : Context) : Prop where
  lines : ∃ lines, c'.lines.toList = c.lines.toList ++ lines ∧
    lines.map Line.bare = Row.lines setting.scope c.lineStart.toNat rows
  lineStart : c'.lineStart.toNat = c.lineStart.toNat + Row.total rows
  line : c'.line = none
  lineOffset : c'.lineOffset = 0
  format : c'.format = c.format

/-- At the start of a line no rows are written by doing nothing. -/
theorem wrote_nil (setting : Setting) (hline : c.line = none) (hoffset : c.lineOffset = 0) :
    Wrote setting [] c c where
  lines := ⟨[], (List.append_nil _).symm, rfl⟩
  lineStart := rfl
  line := hline
  lineOffset := hoffset
  format := rfl

/-- Rows that are written one after the other are written. -/
theorem Wrote.append (h : Wrote setting rows c c') (h' : Wrote setting rows' c' c'') :
    Wrote setting (rows ++ rows') c c'' where
  lines := by
    obtain ⟨lines, hlines, hrows⟩ := h.lines
    obtain ⟨lines', hlines', hrows'⟩ := h'.lines
    refine ⟨lines ++ lines', by rw [hlines', hlines, List.append_assoc], ?_⟩
    rw [List.map_append, hrows, hrows', h.lineStart, Row.lines_append]
  lineStart := by rw [h'.lineStart, h.lineStart, Row.total_append, Nat.add_assoc]
  line := h'.line
  lineOffset := h'.lineOffset
  format := h'.format.trans h.format

/-- **A row that is written is a line**, and the next line starts behind its bytes. -/
theorem wrote_writeRow (hspacing : c.format.spacing = 0)
    (htop : c.lineStart.toNat + row.bytes < 0x10000) :
    Wrote setting [row] c (c.writeRow setting row) where
  lines := by
    have hlines (record : Line) :
        (c.lines.push record ++ Array.replicate c.format.spacing Line.blank).toList =
          c.lines.toList ++ [record] := by
      rw [hspacing]
      simp
    refine ⟨_, hlines _, ?_⟩
    rw [List.map_singleton, bare_finishedLine, Row.lines, Row.lines, Row.line, UInt16.ofNat_toNat]
    rfl
  lineStart := by
    change (c.lineStart + UInt16.ofNat row.bytes).toNat = _
    rw [UInt16.toNat_add, UInt16.toNat_ofNat', Row.total, Row.total]
    omega
  line := rfl
  lineOffset := rfl
  format := rfl

/-- **Rows that are written one after the other are lines one behind the other.** -/
theorem wrote_foldl (setting : Setting) (rows : List Row) (hline : c.line = none)
    (hoffset : c.lineOffset = 0) (hspacing : c.format.spacing = 0)
    (htop : c.lineStart.toNat + Row.total rows < 0x10000) :
    Wrote setting rows c (rows.foldl (writeRow setting) c) := by
  induction rows generalizing c with
  | nil => exact wrote_nil setting hline hoffset
  | cons row rows ih =>
    rw [Row.total] at htop
    have hrow : Wrote setting [row] c (c.writeRow setting row) := wrote_writeRow hspacing (by omega)
    have hstart : (c.writeRow setting row).lineStart.toNat = c.lineStart.toNat + row.bytes :=
      hrow.lineStart
    exact hrow.append (ih rfl rfl hspacing (by omega))

/-- Writing rows does not move the end of the block. -/
theorem blockEnd_foldl_writeRow (setting : Setting) (rows : List Row) (c : Context) :
    (rows.foldl (writeRow setting) c).blockEnd = c.blockEnd ∧
      (rows.foldl (writeRow setting) c).emptied = c.emptied := by
  induction rows generalizing c with
  | nil => exact ⟨rfl, rfl⟩
  | cons row rows ih => exact ih (c.writeRow setting row)

/-- Behind a row the rest of the block is left. -/
theorem Faces.writeRow {rest : List UInt8} (h : c.Faces setting (bytes ++ rest))
    (hrow : row.bytes = bytes.length) : (c.writeRow setting row).Faces setting rest := by
  have hstart : (c.writeRow setting row).lineStart.toNat = c.lineStart.toNat + bytes.length := by
    rw [← h.toNat_add (n := bytes.length) (by simp), ← hrow]
    rfl
  have hlength := h.length
  rw [List.length_append] at hlength
  refine ⟨rfl, rfl, h.spacing, h.emptied, h.blockEnd, ?_, ?_⟩
  · rw [hstart]
    change rest.length = c.blockEnd.toNat + 1 - _
    omega
  · rw [hstart]
    exact (Image.holds_append.1 h.holds).2

end Context
end Script
end Disassembly
