/-
# Assembler forms

An instruction is written as a mnemonic and arguments. Some arguments leave a hole that the bytes
after the opcode fill in. In the printed template of a form the holes are the only lower-case
letters, one letter for each byte: `d` a signed index displacement, `j` a relative jump target, `aa`
an absolute address, `nn` a word and `n` a byte.
-/

namespace Disassembly
namespace Z80

/-- The index register that the opcode byte `DD` or `FD` selects. -/
inductive IndexRegister
  | ix
  | iy
  deriving DecidableEq

/-- The name of an index register. -/
def IndexRegister.name : IndexRegister → String
  | ix => "IX"
  | iy => "IY"

/-- A place in a form that operand bytes fill in. -/
inductive Hole
  /-- A signed displacement from an index register. -/
  | displacement (register : IndexRegister)
  /-- The target of a relative jump, stored as its distance. -/
  | target
  /-- An absolute address. -/
  | address
  /-- A word. -/
  | word
  /-- A byte. -/
  | byte
  deriving DecidableEq

namespace Hole

/-- How many bytes fill the hole. -/
def size : Hole → Nat
  | displacement _ | target | byte => 1
  | address | word => 2

/-- The hole in a template. A displacement brings its own sign. -/
def letters : Hole → String
  | displacement _ => "+d"
  | target => "j"
  | address => "aa"
  | word => "nn"
  | byte => "n"

end Hole

/-- A part of a form: a text, or a hole. -/
inductive Piece
  | text (s : String)
  | hole (h : Hole)

namespace Piece

/-- The part as it stands in a template. -/
def template : Piece → String
  | text s => s
  | hole h => h.letters

/-- How many bytes fill the part. -/
def size : Piece → Nat
  | text _ => 0
  | hole h => h.size

end Piece

/-- An argument of an instruction. Those that name `HL` or a half of it are kept apart, because an
index opcode byte replaces them. -/
inductive Argument
  /-- A register, a condition or a number that is part of the opcode. -/
  | fixed (text : String)
  /-- The pair `HL`. -/
  | hl
  /-- The byte that `HL` points to. -/
  | atHL
  /-- The high half of `HL`. -/
  | h
  /-- The low half of `HL`. -/
  | l
  /-- An index register. -/
  | index (register : IndexRegister)
  /-- The high half of an index register. -/
  | indexHigh (register : IndexRegister)
  /-- The low half of an index register. -/
  | indexLow (register : IndexRegister)
  /-- The place that an index register points to. -/
  | atIndex (register : IndexRegister)
  /-- The byte at a displacement from an index register. -/
  | displaced (register : IndexRegister)
  /-- The target of a relative jump. -/
  | target
  /-- A byte. -/
  | byte
  /-- The device with the number in a byte. -/
  | atByte
  /-- A word. -/
  | word
  /-- An address to go to. -/
  | address
  /-- The place at an address. -/
  | atAddress
  deriving DecidableEq

/-- The parts of an argument. -/
def Argument.pieces : Argument → List Piece
  | fixed text => [.text text]
  | hl => [.text "HL"]
  | atHL => [.text "(HL)"]
  | h => [.text "H"]
  | l => [.text "L"]
  | index r => [.text r.name]
  | indexHigh r => [.text (r.name ++ "H")]
  | indexLow r => [.text (r.name ++ "L")]
  | atIndex r => [.text ("(" ++ r.name ++ ")")]
  | displaced r => [.text ("(" ++ r.name), .hole (.displacement r), .text ")"]
  | target => [.hole .target]
  | byte => [.hole .byte]
  | atByte => [.text "(", .hole .byte, .text ")"]
  | word => [.hole .word]
  | address => [.hole .address]
  | atAddress => [.text "(", .hole .address, .text ")"]

/-- An instruction as the assembler writes it. -/
structure Form where
  mnemonic : String
  arguments : List Argument

namespace Form

/-- The parts of the arguments, with a comma between two arguments. -/
def argumentPieces : List Argument → List Piece
  | [] => []
  | [a] => a.pieces
  | a :: as => a.pieces ++ .text "," :: argumentPieces as

/-- The parts of the form. -/
def pieces (f : Form) : List Piece :=
  match f.arguments with
  | [] => [.text f.mnemonic]
  | as => .text f.mnemonic :: .text " " :: argumentPieces as

/-- The form with its holes shown as lower-case letters. -/
def template (f : Form) : String := String.join (f.pieces.map Piece.template)

/-- How many bytes fill the holes. -/
def operandBytes (f : Form) : Nat := f.pieces.foldr (fun p count => p.size + count) 0

end Form
end Z80
end Disassembly
