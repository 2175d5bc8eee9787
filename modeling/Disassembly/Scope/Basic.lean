/-
# Scopes

A scope is every formatting option in effect at some address. All options but the separator pack
into one number:

| bits | option |
| --- | --- |
| 0-1 | base of addresses |
| 2-3 | base of operands |
| 4-6 | zero to hide opcode bytes, else one more than the code of their base |
| 7-8 | timing display |
| 9-10 | lines after jumps |
| 11-12 | label policy |
| 13-17 | comments, flags, mark of undocumented opcodes, markup, references from data |
| 24-31 | label period |
-/

import Disassembly.Numeral.Base
import Disassembly.Scope.Choice

namespace Disassembly

/-- Every formatting option in effect at some address. -/
structure Scope where
  /-- The base of the address column. -/
  addressBase : Base := .hex
  /-- The base of operands and data. -/
  numberBase : Base := .hex
  /-- The base of the opcode-bytes column, or none to hide it. -/
  opcodeBytes : Option Base := none
  /-- The cycle counts shown. -/
  timing : TimingDisplay := .off
  /-- Where blank lines follow jumps. -/
  lineAfterJump : LineAfterJump := .never
  /-- Which lines show their address. -/
  labels : LabelPolicy := .all
  /-- Under the policy `referenced`, show an address after this many lines without one; zero for
  never. -/
  labelPeriod : UInt8 := 0
  /-- Whether comments are shown. -/
  comments : Bool := true
  /-- What stands between two columns. -/
  separator : String := "  "
  /-- Whether the flags column is shown. -/
  flags : Bool := false
  /-- Whether undocumented instructions are marked. -/
  markUndocumented : Bool := false
  /-- Whether the listing is a markup document. -/
  markup : Bool := false
  /-- Whether words in instructions count as references to addresses. -/
  dataReferences : Bool := true
  deriving DecidableEq

namespace Scope

/-- Every option except the separator as one number. -/
def pack (s : Scope) : Nat :=
  s.addressBase.code
    + 0x4 * s.numberBase.code
    + 0x10 * (match s.opcodeBytes with
      | none => 0
      | some base => base.code + 1)
    + 0x80 * s.timing.code
    + 0x200 * s.lineAfterJump.code
    + 0x800 * s.labels.code
    + 0x2000 * s.comments.toNat
    + 0x4000 * s.flags.toNat
    + 0x8000 * s.markUndocumented.toNat
    + 0x10000 * s.markup.toNat
    + 0x20000 * s.dataReferences.toNat
    + 0x1000000 * s.labelPeriod.toNat

/-- The scope with the options in a packed number and the given separator. -/
def unpack (packed : Nat) (separator : String) : Scope :=
  { addressBase := .ofCode packed
    numberBase := .ofCode (packed / 0x4)
    opcodeBytes := match packed / 0x10 % 8 with
      | 0 => none
      | n + 1 => some (.ofCode n)
    timing := .ofCode (packed / 0x80)
    lineAfterJump := .ofCode (packed / 0x200)
    labels := .ofCode (packed / 0x800)
    labelPeriod := UInt8.ofNat (packed / 0x1000000)
    comments := packed.testBit 13
    separator
    flags := packed.testBit 14
    markUndocumented := packed.testBit 15
    markup := packed.testBit 16
    dataReferences := packed.testBit 17 }

/-- The scope in a few words. -/
def describe (s : Scope) : String :=
  "address " ++ s.addressBase.name ++ ", numbers " ++ s.numberBase.name ++ ", labels " ++
    s.labels.title ++ ", timing " ++ s.timing.title

end Scope
end Disassembly
