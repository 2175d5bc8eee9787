/-
# Operands of constructs

An operand is a selector byte, with a word after it if bit 6 is set; otherwise bits 0 to 3 name a
slot. The word or the slot is the value itself if bit 7 is set, and otherwise the address of the
value. Bit 5 moves the current address past the bytes read, and bit 4 asks for a word where a byte
would be read.
-/

import Disassembly.Script.Context
import Disassembly.Script.Source

namespace Disassembly
namespace Script

/-- An operand of a construct. -/
structure Operand where
  selector : UInt8
  literal : Option UInt16

namespace Operand

/-- Whether a word follows the selector. -/
def hasLiteral (selector : UInt8) : Bool := selector.toNat.testBit 6

/-- Whether the operand is the value itself. -/
def isDirect (o : Operand) : Bool := o.selector.toNat.testBit 7

/-- Whether the current address moves past the bytes read. -/
def advances (o : Operand) : Bool := o.selector.toNat.testBit 5

/-- The width of the value where a construct does not fix it. -/
def naturalWidth (o : Operand) : Width :=
  if o.selector.toNat.testBit 4 then .word else .byte

/-- Read an operand from a script. -/
def read (cs : List Char) : Except ErrorKind (Operand × List Char) := do
  let (selector, cs) ← Source.hex 2 cs
  let selector := UInt8.ofNat selector
  if hasLiteral selector then
    let (literal, cs) ← Source.hex 4 cs
    return (⟨selector, some (UInt16.ofNat literal)⟩, cs)
  else return (⟨selector, none⟩, cs)

/-- The literal, or the value of the slot. -/
def direct (o : Operand) (c : Context) : UInt16 :=
  match o.literal with
  | some n => n
  | none => c.slot (.ofNat o.selector.toNat)

/-- The value of an operand of the given width. -/
def evaluate (o : Operand) (setting : Setting) (width : Width) : Action UInt16 := do
  let value := o.direct (← get)
  if o.isDirect then return value
  let result ← match width with
    | .byte => UInt8.toUInt16 <$> Action.readByte setting value.toNat
    | .word => Action.readWord setting value.toNat
  if o.advances then modify (·.advance width.bytes)
  return result

/-- The five-byte number at the address of an operand, as text. -/
def float (o : Operand) (setting : Setting) : Action String := do
  if o.isDirect then throw (.badOperand o.selector)
  let address := (o.direct (← get)).toNat
  let b0 ← Action.readByte setting address
  let b1 ← Action.readByte setting (address + 1)
  let b2 ← Action.readByte setting (address + 2)
  let b3 ← Action.readByte setting (address + 3)
  let b4 ← Action.readByte setting (address + 4)
  if o.advances then modify (·.advance 5)
  return setting.floats.render b0 b1 b2 b3 b4

end Operand
end Script
end Disassembly
