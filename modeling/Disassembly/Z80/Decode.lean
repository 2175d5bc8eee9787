/-
# Decoding

An instruction is decoded by finding its opcode and filling the holes of its form, from left to
right, with the bytes after the selecting bytes. Behind an index byte and `CB` the opcode byte comes
last, after the displacement.
-/

import Disassembly.Z80.Table

namespace Disassembly
namespace Z80

/-- A value found in the operand bytes of an instruction. -/
inductive Operand
  /-- The target of a relative jump, as an address. -/
  | relative (target : UInt16)
  /-- An absolute address. -/
  | address (a : UInt16)
  /-- A word. -/
  | number (n : UInt16)
  /-- A byte. -/
  | immediate (n : UInt8)
  /-- A displacement from an index register. -/
  | displacement (register : IndexRegister) (d : Int8)

/-- The operand as it stands in the text of an instruction. -/
def Operand.render (base : Base) : Operand → String
  | relative a => Numeral.operand a.toNat .word base false
  | address a => Numeral.operand a.toNat .word base false
  | number n => Numeral.operand n.toNat .word base false
  | immediate n => Numeral.operand n.toNat .byte base false
  | displacement _ d => Numeral.displacement d base

/-- A decoded instruction. -/
structure Instruction where
  text : String
  opcode : Opcode
  operands : List Operand

/-- How many bytes the instruction has. -/
def Instruction.length (i : Instruction) : Nat := i.opcode.length

/-- The bytes ended partway through an instruction. -/
structure Truncated where
  address : UInt16
  needed : Nat
  available : Nat

/-- The message for an instruction that is cut off. -/
def Truncated.message (t : Truncated) : String :=
  "instruction at " ++ Numeral.hexWord t.address ++ " needs " ++ Numeral.decimal t.needed ++
    " bytes but only " ++ Numeral.decimal t.available ++ " remain"

/-- Two bytes as a word, the first one low. -/
def littleEndian (low high : UInt8) : UInt16 := low.toUInt16 ||| high.toUInt16 <<< 8

/-- The target of a relative jump: the distance counts from the address after the instruction, and
addresses wrap. -/
def jumpTarget (address : UInt16) (length : Nat) (distance : UInt8) : UInt16 :=
  address + UInt16.ofNat length + UInt16.ofInt distance.toInt8.toInt

/-- The value that fills a hole of the instruction at `address`, which has `length` bytes. -/
def Hole.operand (address : UInt16) (length : Nat) (bytes : List UInt8) : Hole → Operand
  | displacement r => .displacement r (bytes.headD 0).toInt8
  | target => .relative (jumpTarget address length (bytes.headD 0))
  | .address => .address (littleEndian (bytes.headD 0) (bytes.tail.headD 0))
  | word => .number (littleEndian (bytes.headD 0) (bytes.tail.headD 0))
  | byte => .immediate (bytes.headD 0)

/-- The operands that fill the holes of a form from left to right. -/
def fillOperands (address : UInt16) (length : Nat) : List Piece → List UInt8 → List Operand
  | [], _ => []
  | .text _ :: ps, bytes => fillOperands address length ps bytes
  | .hole h :: ps, bytes =>
    h.operand address length bytes :: fillOperands address length ps (bytes.drop h.size)

/-- The text of a form with its holes filled from left to right. -/
def fillText (address : UInt16) (length : Nat) (base : Base) : List Piece → List UInt8 → String
  | [], _ => ""
  | .text s :: ps, bytes => s ++ fillText address length base ps bytes
  | .hole h :: ps, bytes =>
    (h.operand address length bytes).render base ++
      fillText address length base ps (bytes.drop h.size)

/-- The opcode at the start of the bytes and the position of its first operand byte, or how many
bytes it takes at least to find the opcode. -/
def select : List UInt8 → Except Nat (Opcode × Nat)
  | [] => .error 1
  | first :: rest =>
    if first = 0xCB then
      match rest with
      | [] => .error 2
      | op :: _ => .ok (bitwise op, 2)
    else if first = 0xED then
      match rest with
      | [] => .error 2
      | op :: _ => .ok (extended op, 2)
    else if first = 0xDD ∨ first = 0xFD then
      let r := if first = 0xDD then IndexRegister.ix else .iy
      match rest with
      | [] => .error 2
      | second :: rest =>
        if second = 0xCB then
          match rest with
          | _ :: op :: _ => .ok (indexedBitwise op r, 2)
          | _ => .error 4
        else match indexed second r with
          | some o => .ok (o, 2)
          | none => .ok (.ignoredIndex, 1)
    else .ok ((unprefixed first).getD .ignoredIndex, 1)

/-- Decode the instruction at the start of the bytes, which are at `address`. -/
def decode (bytes : List UInt8) (address : UInt16) (base : Base) :
    Except Truncated Instruction :=
  match select bytes with
  | .error needed => .error ⟨address, needed, bytes.length⟩
  | .ok (opcode, position) =>
    if bytes.length < opcode.length then .error ⟨address, opcode.length, bytes.length⟩
    else
      let pieces := opcode.form.pieces
      let operandBytes := bytes.drop position
      .ok {
        text := fillText address opcode.length base pieces operandBytes
        opcode
        operands := fillOperands address opcode.length pieces operandBytes }

/-- The most bytes an instruction can have. -/
def longest : Nat := 4

end Z80
end Disassembly
