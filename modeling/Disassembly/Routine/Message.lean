/-
# Message dumps

A message dump writes bytes as text: runs of printable characters in quotes, with a quote written
twice, and other bytes as numbers, all separated by commas. The end of the message is the end of the
block, or is marked in one of five ways; parameters of a control code never mark it.

| terminator | end of the message | title |
| --- | --- | --- |
| `raw` | the end of the block | `DM` |
| `zero` | a zero byte | `DM0` |
| `highbit` | a character with bit 7 set, written as the character plus 128 | `DMH` |
| `len1` | a length byte in front | `DM1` |
| `len2le`, `len2be` | a length word in front, low or high byte first | `DM2`, `DM2B` |
-/

import Disassembly.Routine.Argument
import Disassembly.Script.Context

namespace Disassembly
namespace Routine

open Script

/-- How the end of a message is found. -/
inductive Terminator
  | raw
  | zero
  | highBit
  | lengthByte
  | lengthWord
  | lengthWordBigEndian

namespace Terminator

/-- The title of lines, unless another is given. -/
def defaultTitle : Terminator → String
  | raw => "DM"
  | zero => "DM0"
  | highBit => "DMH"
  | lengthByte => "DM1"
  | lengthWord => "DM2"
  | lengthWordBigEndian => "DM2B"

/-- The terminator with the given name, in any case. -/
def ofName? (name : String) : Option Terminator :=
  match name.toLower with
  | "raw" => some raw
  | "zero" => some zero
  | "highbit" => some highBit
  | "len1" => some lengthByte
  | "len2le" => some lengthWord
  | "len2be" => some lengthWordBigEndian
  | _ => none

end Terminator

namespace Message

/-- The text of a line so far. -/
structure Draft where
  text : String := ""
  /-- Whether quotes are open. -/
  quoted : Bool := false
  /-- How many items there are, a run of characters being one. -/
  items : Nat := 0
  /-- How many bytes are shown. -/
  bytes : Nat := 0

namespace Draft

/-- A character as it stands in quotes. -/
def quotedChar (c : Char) : String := if c = '"' then "\"\"" else String.singleton c

/-- Close open quotes. -/
def closeQuote (d : Draft) : Draft :=
  if d.quoted then { d with text := d.text ++ "\"", quoted := false } else d

/-- The comma before another item. -/
def comma (d : Draft) : String := if 0 < d.items then "," else ""

/-- Add a character to the open run, or begin a run with it. -/
def printable (d : Draft) (c : Char) : Draft :=
  if d.quoted then { d with text := d.text ++ quotedChar c, bytes := d.bytes + 1 }
  else
    { text := d.text ++ d.comma ++ "\"" ++ quotedChar c
      quoted := true
      items := d.items + 1
      bytes := d.bytes + 1 }

/-- Add an item outside quotes that shows `bytes` bytes. -/
def item (d : Draft) (text : String) (bytes : Nat) : Draft :=
  let d := d.closeQuote
  { d with text := d.text ++ d.comma ++ text, items := d.items + 1, bytes := d.bytes + bytes }

/-- Add a character plus a number. -/
def marked (d : Draft) (c : Char) (marker : String) : Draft :=
  d.item ("\"" ++ quotedChar c ++ "\"+" ++ marker) 1

end Draft

/-- How lines are written. -/
structure Style where
  title : String
  base : Base
  /-- How many bytes a line shows; zero for no limit. -/
  perLine : Nat

namespace Style

/-- Add a number. -/
def number (style : Style) (d : Draft) (value : Nat) (width : Width) : Draft :=
  d.item (Numeral.operand value width style.base false) width.bytes

/-- Write a line, unless it is empty. -/
def flush (setting : Setting) (style : Style) (d : Draft) : Action Unit :=
  if d.items = 0 then return ()
  else modify fun c =>
    let c := ((c.startLine setting).pushText setting style.title).pushSeparator setting
    (c.pushText setting d.closeQuote.text).endLine setting

/-- Write the line if it is full. -/
def wrap (setting : Setting) (style : Style) (d : Draft) : Action Draft := do
  if 0 < style.perLine ∧ style.perLine ≤ d.bytes then
    style.flush setting d
    return {}
  else return d

/-- Read the next byte, after writing the line if it is full. -/
def nextByte (setting : Setting) (style : Style) (d : Draft) : Action (UInt8 × Draft) := do
  let d ← style.wrap setting d
  let b ← Action.nextByte setting
  return (b, d)

/-- Add `count` bytes, of which the first `parameters` belong to a control code. -/
def body (setting : Setting) (style : Style) : Nat → Nat → Draft → Action Draft
  | 0, _, d => return d
  | count + 1, parameters, d => do
    let (b, d) ← style.nextByte setting d
    match parameters with
    | parameters + 1 => style.body setting count parameters (style.number d b.toNat .byte)
    | 0 =>
      match setting.charset.glyph b with
      | .printable c => style.body setting count 0 (d.printable c)
      | .control operands => style.body setting count operands (style.number d b.toNat .byte)
      | _ => style.body setting count 0 (style.number d b.toNat .byte)

end Style

/-- Where the first byte with the property `ends` is among `count` bytes from `address` on, without
the parameters of control codes; `index` and `parameters` tell where the search stands. -/
def findEnd (setting : Setting) (ends : UInt8 → Bool) (address : Nat) :
    Nat → Nat → Nat → Action (Option Nat)
  | 0, _, _ => return none
  | count + 1, index, parameters => do
    let b ← Action.readByte setting (address + index)
    match parameters with
    | parameters + 1 => findEnd setting ends address count (index + 1) parameters
    | 0 =>
      if ends b then return some index
      else match setting.charset.glyph b with
        | .control operands => findEnd setting ends address count (index + 1) operands
        | _ => findEnd setting ends address count (index + 1) 0

/-- How many bytes a message has that ends before a byte with the property `ends`, and whether there
is one. -/
def lengthUpTo (setting : Setting) (ends : UInt8 → Bool) : Action (Nat × Bool) := do
  let c ← get
  match ← findEnd setting ends c.currentAddress.toNat c.remaining 0 0 with
  | some n => return (n, true)
  | none => return (c.remaining, false)

/-- A message up to its last byte, which is written by `last` if there is one; the block ends
there. -/
def terminated (setting : Setting) (style : Style) (ends : UInt8 → Bool)
    (last : Draft → UInt8 → Draft) : Action Draft := do
  let (length, found) ← lengthUpTo setting ends
  let d ← style.body setting length 0 {}
  if found then
    let (b, d) ← style.nextByte setting d
    modify Context.endBlockHere
    return last d b
  else return d

/-- A message after its length, which is written in front; the block ends there. -/
def counted (setting : Setting) (style : Style) (length : Nat) (width : Width) : Action Draft := do
  let d ← style.body setting length 0 (style.number {} length width)
  modify Context.endBlockHere
  return d

/-- Write the last character of a message, which has bit 7 set. -/
def lastChar (setting : Setting) (style : Style) (d : Draft) (b : UInt8) : Draft :=
  match setting.charset.glyph (b &&& 0x7F) with
  | .printable c => d.marked c (Numeral.operand 0x80 .byte style.base false)
  | _ => style.number d b.toNat .byte

/-- Write the message. -/
def run (setting : Setting) (style : Style) (terminator : Terminator) : Action Unit := do
  let d ← match terminator with
    | .raw => do style.body setting (← get).remaining 0 {}
    | .zero => terminated setting style (· = 0) fun d b => style.number d b.toNat .byte
    | .highBit => terminated setting style (0x80 ≤ ·) (lastChar setting style)
    | .lengthByte => do
      let length ← Action.nextByte setting
      counted setting style length.toNat .byte
    | .lengthWord => do
      let first ← Action.nextByte setting
      let second ← Action.nextByte setting
      counted setting style (Image.combine false first second).toNat .word
    | .lengthWordBigEndian => do
      let first ← Action.nextByte setting
      let second ← Action.nextByte setting
      counted setting style (Image.combine true first second).toNat .word
  style.flush setting d

end Message

/-- Dump a message: `MessageDump(terminator="raw", per_line=0, title)`. -/
def messageDump (setting : Setting) (a : Arguments) : Action Unit := do
  let name ← Action.ofExcept (a.string "terminator" 0 "raw")
  let terminator ← match Terminator.ofName? name with
    | some t => pure t
    | none => Action.ofExcept (a.error .unknownTerminator)
  let perLine ← Action.ofExcept (a.count "per_line" 1 0 0xFFFF)
  let title ← Action.ofExcept (a.string "title" 2 terminator.defaultTitle)
  Message.run setting { title, base := (← get).format.base, perLine } terminator

end Routine
end Disassembly
