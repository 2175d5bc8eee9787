/-
# Script contexts

A script runs over a block of addresses and builds lines. Its context holds sixteen slots of 16 bits:

| slot | meaning | writable |
| --- | --- | --- |
| 0-9 | free for the script | yes |
| 10 | address of the line under construction | no |
| 11 | number of lines ended | no |
| 12 | offset of the current address from the line | yes, as an address |
| 13 | first address of the block | no |
| 14 | last address of the block | yes |
| 15 | current address, slot 10 plus slot 12 | no |

Bytes are read at the current address, and reading moves slot 12 on. Ending a line moves slot 10 past
the bytes read. The current address wraps at the top of the address space; the position, which counts
for reads of the next byte and for the end of the block, is the same sum without the wrap.
-/

import Disassembly.Charset
import Disassembly.FiveByte
import Disassembly.Image
import Disassembly.Listing.Line
import Disassembly.Overlay
import Disassembly.Script.Error
import Std.Data.TreeSet

namespace Disassembly
namespace Script

/-- What a script sees and cannot change. -/
structure Setting where
  image : Image
  scope : Scope
  charset : CharacterSet
  floats : FloatCodec

/-- How a script writes numbers and spaces lines. -/
structure NumberFormat where
  base : Base
  signed : Bool
  bigEndian : Bool
  /-- How many blank lines follow each line. -/
  spacing : Nat

namespace NumberFormat

/-- The format that a block starts with. -/
def ofScope (scope : Scope) : NumberFormat := ⟨scope.numberBase, false, false, 0⟩

/-- The format in a byte: bits 0 and 1 the base, bit 2 signed, bit 3 high byte first, bits 4 and 5
the spacing. -/
def ofByte (bits : UInt8) : NumberFormat :=
  ⟨.ofCode bits.toNat, bits.toNat.testBit 2, bits.toNat.testBit 3, bits.toNat / 16 % 4⟩

end NumberFormat

/-- The name of a slot. -/
inductive Slot
  | free (i : Fin 10)
  | lineStart
  | lineCount
  | lineOffset
  | blockStart
  | blockEnd
  | current

/-- The slot named by the low four bits of a number. -/
def Slot.ofNat (n : Nat) : Slot :=
  match n % 16 with
  | 10 => lineStart
  | 11 => lineCount
  | 12 => lineOffset
  | 13 => blockStart
  | 14 => blockEnd
  | 15 => current
  | i => free (Fin.ofNat 10 i)

/-- A line under construction. -/
structure OpenLine where
  marker : Marker
  text : String

/-- The state of a script, and what it shares with the walk. -/
structure Context where
  free : Vector UInt16 10
  lineStart : UInt16
  lineCount : UInt16
  lineOffset : UInt16
  blockStart : UInt16
  blockEnd : UInt16
  format : NumberFormat
  line : Option OpenLine
  lines : Array Line
  /-- Whether the block was made empty before its first byte, at address zero. -/
  emptied : Bool
  overlay : Overlay
  references : Std.TreeSet UInt16

namespace Context

/-- The context at the start of a block. -/
def start (setting : Setting) (overlay : Overlay) (references : Std.TreeSet UInt16)
    (first last : UInt16) : Context :=
  { free := Vector.replicate 10 0
    lineStart := first
    lineCount := 0
    lineOffset := 0
    blockStart := first
    blockEnd := last
    format := .ofScope setting.scope
    line := none
    lines := #[]
    emptied := false
    overlay
    references }

/-- The current address. -/
def currentAddress (c : Context) : UInt16 := c.lineStart + c.lineOffset

/-- The current address without the wrap. -/
def position (c : Context) : Nat := c.lineStart.toNat + c.lineOffset.toNat

/-- The value of a slot. -/
def slot (c : Context) : Slot → UInt16
  | .free i => c.free[i]
  | .lineStart => c.lineStart
  | .lineCount => c.lineCount
  | .lineOffset => c.lineOffset
  | .blockStart => c.blockStart
  | .blockEnd => c.blockEnd
  | .current => c.currentAddress

/-- Change the last address of the block. -/
def setBlockEnd (c : Context) (last : UInt16) : Context :=
  { c with blockEnd := last, emptied := false }

/-- Make the last byte read the end of the block. At position zero the block becomes empty. -/
def endBlockHere (c : Context) : Context :=
  { c with blockEnd := UInt16.ofNat (c.position + 0xFFFF), emptied := c.position = 0 }

/-- The first address after the block. -/
def resume (c : Context) : Nat :=
  if c.emptied then c.blockStart.toNat else c.blockEnd.toNat + 1

/-- How many bytes are left up to the end of the block. -/
def remaining (c : Context) : Nat := c.resume - c.position

/-- Move the current address on. -/
def advance (c : Context) (bytes : Nat) : Context :=
  { c with lineOffset := c.lineOffset + UInt16.ofNat bytes }

/-- Put a value into the cell of a slot. The current address has no cell. -/
def store (c : Context) (slot : Slot) (value : UInt16) : Context :=
  match slot with
  | .free i => { c with free := c.free.set i value }
  | .lineStart => { c with lineStart := value }
  | .lineCount => { c with lineCount := value }
  | .lineOffset => { c with lineOffset := value }
  | .blockStart => { c with blockStart := value }
  | .blockEnd => { c with blockEnd := value }
  | .current => c

/-- Assign to a slot. Slot 12 takes an address and keeps its offset from the line. A number above 15
names the cell of its low four bits, to which no rule applies. -/
def assign (c : Context) (slot : UInt8) (value : UInt16) : Except ErrorKind Context :=
  if 16 ≤ slot then .ok (c.store (.ofNat slot.toNat) value)
  else match Slot.ofNat slot.toNat with
    | .lineStart | .lineCount | .blockStart | .current => .error (.readOnlySlot slot)
    | .lineOffset => .ok (c.store .lineOffset (value - c.lineStart))
    | .blockEnd => .ok (c.setBlockEnd value)
    | .free i => .ok (c.store (.free i) value)

/-- The address marker of a line at the line start. -/
def marker (setting : Setting) (c : Context) : Marker :=
  { address := c.lineStart
    base := setting.scope.addressBase
    labels := setting.scope.labels
    period := setting.scope.labelPeriod
    data := true }

/-- Begin a line at the line start, or move the line under construction there. -/
def startLine (setting : Setting) (c : Context) : Context :=
  match c.line with
  | some line => { c with line := some ⟨c.marker setting, line.text⟩ }
  | none => { c with line := some ⟨c.marker setting, ""⟩ }

/-- Add text to the line under construction, beginning one if there is none. -/
def pushText (setting : Setting) (text : String) (c : Context) : Context :=
  match c.line with
  | some line => { c with line := some ⟨line.marker, line.text ++ text⟩ }
  | none => { c with line := some ⟨c.marker setting, text⟩ }

/-- Add a character to the line under construction. -/
def pushChar (setting : Setting) (char : Char) (c : Context) : Context :=
  c.pushText setting (String.singleton char)

/-- Add the separator of columns to the line under construction. -/
def pushSeparator (setting : Setting) (c : Context) : Context :=
  c.pushText setting setting.scope.separator

/-- The text of the line under construction. -/
def lineText (c : Context) : String :=
  match c.line with
  | some line => line.text
  | none => ""

/-- The context without a line under construction. -/
def dropLine (c : Context) : Context := { c with line := none }

/-- A finished line with the comments that fall on it. -/
def finishedLine (setting : Setting) (line : OpenLine) (comments : List Overlay.Comment) : Line :=
  let record : Line :=
    { marker := some line.marker
      body := .data line.text
      lineAfter := setting.scope.lineAfterJump
      separator := setting.scope.separator }
  if setting.scope.comments then record.attachAll comments else record

/-- Move the line start past the bytes read. -/
def nextLine (c : Context) : Context :=
  { c with
    lineStart := c.lineStart + c.lineOffset
    lineCount := c.lineCount + 1
    lineOffset := 0 }

/-- End the line under construction, if there is one, with the comments on the bytes read for it, and
move the line start past these bytes. A line without bytes takes the comments on its address. -/
def endLine (setting : Setting) (c : Context) : Context :=
  match c.line with
  | none => c.nextLine
  | some line =>
    let first := c.lineStart.toNat
    let taken := c.overlay.takeComments first (first + max c.lineOffset.toNat 1 - 1)
    let record := finishedLine setting line taken.1
    nextLine { c with
      line := none
      lines := c.lines.push record ++ Array.replicate c.format.spacing Line.blank
      overlay := taken.2 }

/-- Make the last byte read the end of the block, and end the line. -/
def shrink (setting : Setting) (c : Context) : Context := c.endBlockHere.endLine setting

/-- Add a pending directive. -/
def insertDirective (d : Directive) (c : Context) : Context :=
  { c with overlay := c.overlay.insert d }

/-- Record a reference to an address. -/
def recordReference (address : UInt16) (c : Context) : Context :=
  { c with references := c.references.insert address }

/-- Move to a candidate address of a pattern block. -/
def beginCandidate (address matched : UInt16) (c : Context) : Context :=
  { c with lineStart := address, lineOffset := 0, lineCount := matched, line := none }

/-- End the line under construction, if there is one. -/
def finish (setting : Setting) (c : Context) : Context :=
  if c.line.isSome then c.endLine setting else c

end Context

/-- A step of a script: it may fail, and what it did before failing stays done. -/
abbrev Action := EStateM ErrorKind Context

namespace Action

/-- Fail, or go on with the value. -/
def ofExcept {α : Type} : Except ErrorKind α → Action α
  | .ok a => pure a
  | .error kind => throw kind

/-- The byte at an address. -/
def readByte (setting : Setting) (address : Nat) : Action UInt8 :=
  match setting.image.byte? address with
  | some b => pure b
  | none => throw (.outOfRange address)

/-- The word at an address, in the current byte order. -/
def readWord (setting : Setting) (address : Nat) : Action UInt16 := do
  match setting.image.word? address (← get).format.bigEndian with
  | some w => return w
  | none => throw (.outOfRange address)

/-- The byte at the position, which moves past it. -/
def nextByte (setting : Setting) : Action UInt8 := do
  let b ← readByte setting (← get).position
  modify (·.advance 1)
  return b

/-- The word at the position, which moves past it. -/
def nextWord (setting : Setting) : Action UInt16 := do
  let w ← readWord setting (← get).position
  modify (·.advance 2)
  return w

/-- Assign to a slot. -/
def assign (slot : UInt8) (value : UInt16) : Action Unit := do
  set (← ofExcept ((← get).assign slot value))

end Action
end Script
end Disassembly
