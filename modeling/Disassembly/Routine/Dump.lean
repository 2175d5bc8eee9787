/-
# Byte and word dumps

A dump writes the rest of a block as numbers, a few on each line, behind a title. Numbers on a line
are separated by commas, and every so often by a comma and a blank. A word dump leaves a last odd
byte to a line of its own.
-/

import Disassembly.Routine.Argument
import Disassembly.Script.Context

namespace Disassembly
namespace Routine

open Script

/-- How a dump is laid out. -/
structure Dump where
  title : String
  /-- How many items a line has; zero for no limit. -/
  perLine : Nat
  /-- After how many items there is a blank; zero for never. -/
  gap : Nat
  /-- How many bytes an item takes. -/
  size : Nat
  /-- Read an item. -/
  item : Action String

namespace Dump

/-- What stands before the item at `index` of a line. -/
def itemSeparator (index gap : Nat) : String :=
  if index = 0 then "" else if 0 < gap ∧ index % gap = 0 then ", " else ","

/-- More than a dump can do, in items or lines, without going round the whole address space. -/
def limit : Nat := 0x20001

/-- Write items until the line is full or the block is at its end. -/
def items (setting : Setting) (d : Dump) : Nat → Nat → Action Unit
  | 0, _ => throw .endless
  | fuel + 1, index => do
    if d.size ≤ (← get).remaining ∧ (d.perLine = 0 ∨ index < d.perLine) then
      let text ← d.item
      modify fun c => (c.pushText setting (itemSeparator index d.gap)).pushText setting text
      items setting d fuel (index + 1)
    else return ()

/-- Write lines until the block is at its end. -/
def lines (setting : Setting) (d : Dump) : Nat → Action Unit
  | 0 => throw .endless
  | fuel + 1 => do
    if d.size ≤ (← get).remaining then
      modify fun c => ((c.startLine setting).pushText setting d.title).pushSeparator setting
      items setting d limit 0
      modify (·.endLine setting)
      lines setting d fuel
    else return ()

/-- Write the block. -/
def run (setting : Setting) (d : Dump) : Action Unit := lines setting d limit

end Dump

/-- Read a byte as a number. -/
def byteItem (setting : Setting) (base : Base) (signed : Bool) : Action String := do
  let b ← Action.nextByte setting
  return Numeral.operand b.toNat .byte base signed

/-- Read a word as a number. -/
def wordItem (setting : Setting) (base : Base) (signed bigEndian : Bool) : Action String := do
  let first ← Action.nextByte setting
  let second ← Action.nextByte setting
  return Numeral.operand (Image.combine bigEndian first second).toNat .word base signed

/-- Dump bytes: `ByteDump(format, signed=false, per_line=8, gap=0, title="DEFB")`. -/
def byteDump (setting : Setting) (a : Arguments) : Action Unit := do
  let base ← Action.ofExcept (a.base "format" 0 (← get).format.base)
  let signed ← Action.ofExcept (a.bool "signed" 1 false)
  let perLine ← Action.ofExcept (a.count "per_line" 2 8 0xFFFF)
  let gap ← Action.ofExcept (a.count "gap" 3 0 0xFFFF)
  let title ← Action.ofExcept (a.string "title" 4 "DEFB")
  Dump.run setting { title, perLine, gap, size := 1, item := byteItem setting base signed }

/-- Dump words: `WordDump(format, signed=false, big_endian=false, per_line=4, gap=0,
title="DEFW")`. -/
def wordDump (setting : Setting) (a : Arguments) : Action Unit := do
  let base ← Action.ofExcept (a.base "format" 0 (← get).format.base)
  let signed ← Action.ofExcept (a.bool "signed" 1 false)
  let bigEndian ← Action.ofExcept (a.bool "big_endian" 2 false)
  let perLine ← Action.ofExcept (a.count "per_line" 3 4 0xFFFF)
  let gap ← Action.ofExcept (a.count "gap" 4 0 0xFFFF)
  let title ← Action.ofExcept (a.string "title" 5 "DEFW")
  Dump.run setting
    { title, perLine, gap, size := 2, item := wordItem setting base signed bigEndian }
  if (← get).remaining = 1 then
    let text ← byteItem setting base signed
    modify fun c =>
      let c := ((c.startLine setting).pushText setting "DEFB").pushSeparator setting
      (c.pushText setting text).endLine setting

end Routine
end Disassembly
