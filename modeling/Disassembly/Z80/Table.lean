/-
# The opcode tables

An opcode byte is split the usual way: `x` is bits 6 and 7, `y` bits 3 to 5, `z` bits 0 to 2, and
`y` splits further into `p` (bits 4 and 5) and `q` (bit 3).

| selected by | table |
| --- | --- |
| one byte | `unprefixed` |
| `CB` | `bitwise` |
| `ED` | `extended` |
| `DD`, `FD` | `indexed`: the unprefixed table seen through an index register |
| `DDCB`, `FDCB` | `indexedBitwise`: the displacement comes before the opcode byte |
-/

import Disassembly.Z80.Opcode

namespace Disassembly
namespace Z80

/-- The register, or the byte at `HL`, that a three-bit field names. -/
def register : Nat → Argument
  | 0 => .fixed "B"
  | 1 => .fixed "C"
  | 2 => .fixed "D"
  | 3 => .fixed "E"
  | 4 => .h
  | 5 => .l
  | 6 => .atHL
  | _ => .fixed "A"

/-- The register pair that a two-bit field names in loads and arithmetic. -/
def pair : Nat → Argument
  | 0 => .fixed "BC"
  | 1 => .fixed "DE"
  | 2 => .hl
  | _ => .fixed "SP"

/-- The register pair that a two-bit field names in stack operations. -/
def stackPair : Nat → Argument
  | 0 => .fixed "BC"
  | 1 => .fixed "DE"
  | 2 => .hl
  | _ => .fixed "AF"

/-- The condition that a three-bit field names. -/
def condition : Nat → Argument
  | 0 => .fixed "NZ"
  | 1 => .fixed "Z"
  | 2 => .fixed "NC"
  | 3 => .fixed "C"
  | 4 => .fixed "PO"
  | 5 => .fixed "PE"
  | 6 => .fixed "P"
  | _ => .fixed "M"

/-- The operation of the accumulator and an operand that a three-bit field names. -/
def arithmetic (y : Nat) (operand : Argument) (cycles : List Nat) : Opcode :=
  match y with
  | 0 => (Opcode.plain "ADD" [.fixed "A", operand] cycles).affecting .add
  | 1 => (Opcode.plain "ADC" [.fixed "A", operand] cycles).affecting .add
  | 2 => (Opcode.plain "SUB" [operand] cycles).affecting .sub
  | 3 => (Opcode.plain "SBC" [.fixed "A", operand] cycles).affecting .sub
  | 4 => (Opcode.plain "AND" [operand] cycles).affecting .conjunction
  | 5 => (Opcode.plain "XOR" [operand] cycles).affecting .disjunction
  | 6 => (Opcode.plain "OR" [operand] cycles).affecting .disjunction
  | _ => (Opcode.plain "CP" [operand] cycles).affecting .sub

/-- The operation on the accumulator alone that a three-bit field names. -/
def accumulator : Nat → Opcode
  | 0 => (Opcode.plain "RLCA" [] [4]).affecting .rotateAccumulator
  | 1 => (Opcode.plain "RRCA" [] [4]).affecting .rotateAccumulator
  | 2 => (Opcode.plain "RLA" [] [4]).affecting .rotateAccumulator
  | 3 => (Opcode.plain "RRA" [] [4]).affecting .rotateAccumulator
  | 4 => (Opcode.plain "DAA" [] [4]).affecting .decimalAdjust
  | 5 => (Opcode.plain "CPL" [] [4]).affecting .complement
  | 6 => (Opcode.plain "SCF" [] [4]).affecting .setCarry
  | _ => (Opcode.plain "CCF" [] [4]).affecting .complementCarry

/-- The mnemonic of the rotation that a three-bit field names. -/
def rotation : Nat → String
  | 0 => "RLC"
  | 1 => "RRC"
  | 2 => "RL"
  | 3 => "RR"
  | 4 => "SLA"
  | 5 => "SRA"
  | 6 => "SLL"
  | _ => "SRL"

/-- The number of a bit. -/
def bitNumber : Nat → Argument
  | 0 => .fixed "0"
  | 1 => .fixed "1"
  | 2 => .fixed "2"
  | 3 => .fixed "3"
  | 4 => .fixed "4"
  | 5 => .fixed "5"
  | 6 => .fixed "6"
  | _ => .fixed "7"

/-- The restart address that a three-bit field names. -/
def restart : Nat → Argument
  | 0 => .fixed "#00"
  | 1 => .fixed "#08"
  | 2 => .fixed "#10"
  | 3 => .fixed "#18"
  | 4 => .fixed "#20"
  | 5 => .fixed "#28"
  | 6 => .fixed "#30"
  | _ => .fixed "#38"

/-- The states of an instruction on the register that field `r` names, or on memory. -/
def registerOrMemory (r : Nat) (inRegister inMemory : List Nat) : List Nat :=
  if r = 6 then inMemory else inRegister

/-- Opcodes with `x = 0`. -/
def unprefixed0 (y z : Nat) : Opcode :=
  let p := y / 2
  match z, y % 2 with
  | 0, _ =>
    match y with
    | 0 => .plain "NOP" [] [4]
    | 1 => (Opcode.plain "EX" [.fixed "AF", .fixed "AF'"] [4]).affecting .all
    | 2 => ((Opcode.plain "DJNZ" [.target] [5, 3, 5]).orCycles [5, 3]).jumping .conditional
    | 3 => (Opcode.plain "JR" [.target] [4, 3, 5]).jumping .unconditional
    | _ =>
      ((Opcode.plain "JR" [condition (y - 4), .target] [4, 3, 5]).orCycles [4, 3]).jumping
        .conditional
  | 1, 0 => .plain "LD" [pair p, .word] [4, 3, 3]
  | 1, _ => (Opcode.plain "ADD" [.hl, pair p] [4, 4, 3]).affecting .addWord
  | 2, 0 =>
    match p with
    | 0 => .plain "LD" [.fixed "(BC)", .fixed "A"] [4, 3]
    | 1 => .plain "LD" [.fixed "(DE)", .fixed "A"] [4, 3]
    | 2 => .plain "LD" [.atAddress, .hl] [4, 3, 3, 3, 3]
    | _ => .plain "LD" [.atAddress, .fixed "A"] [4, 3, 3, 3]
  | 2, _ =>
    match p with
    | 0 => .plain "LD" [.fixed "A", .fixed "(BC)"] [4, 3]
    | 1 => .plain "LD" [.fixed "A", .fixed "(DE)"] [4, 3]
    | 2 => .plain "LD" [.hl, .atAddress] [4, 3, 3, 3, 3]
    | _ => .plain "LD" [.fixed "A", .atAddress] [4, 3, 3, 3]
  | 3, 0 => .plain "INC" [pair p] [6]
  | 3, _ => .plain "DEC" [pair p] [6]
  | 4, _ =>
    (Opcode.plain "INC" [register y] (registerOrMemory y [4] [4, 4, 3])).affecting .increment
  | 5, _ =>
    (Opcode.plain "DEC" [register y] (registerOrMemory y [4] [4, 4, 3])).affecting .decrement
  | 6, _ => .plain "LD" [register y, .byte] (registerOrMemory y [4, 3] [4, 3, 3])
  | _, _ => accumulator y

/-- Opcodes with `x = 1`: loads between registers, and `HALT` where both fields name memory. -/
def unprefixed1 (y z : Nat) : Opcode :=
  if y = 6 ∧ z = 6 then .plain "HALT" [] [4]
  else .plain "LD" [register y, register z] (if y = 6 ∨ z = 6 then [4, 3] else [4])

/-- Opcodes with `x = 3`; none for the four bytes that select another table. -/
def unprefixed3 (y z : Nat) : Option Opcode :=
  let p := y / 2
  match z, y % 2 with
  | 0, _ =>
    some (((Opcode.plain "RET" [condition y] [5, 3, 3]).orCycles [5]).jumping .conditional)
  | 1, 0 =>
    some ((Opcode.plain "POP" [stackPair p] [4, 3, 3]).affecting (if p = 3 then .all else .none))
  | 1, _ =>
    match p with
    | 0 => some ((Opcode.plain "RET" [] [4, 3, 3]).jumping .unconditional)
    | 1 => some (.plain "EXX" [] [4])
    | 2 => some ((Opcode.plain "JP" [.atHL] [4]).jumping .unconditional)
    | _ => some (.plain "LD" [.fixed "SP", .hl] [6])
  | 2, _ =>
    some (((Opcode.plain "JP" [condition y, .address] [4, 3, 3]).orCycles [4, 3, 3]).jumping
      .conditional)
  | 3, _ =>
    match y with
    | 0 => some ((Opcode.plain "JP" [.address] [4, 3, 3]).jumping .unconditional)
    | 1 => none
    | 2 => some (.plain "OUT" [.atByte, .fixed "A"] [4, 3, 4])
    | 3 => some (.plain "IN" [.fixed "A", .atByte] [4, 3, 4])
    | 4 => some (.plain "EX" [.fixed "(SP)", .hl] [4, 3, 4, 3, 5])
    | 5 => some (.plain "EX" [.fixed "DE", .hl] [4])
    | 6 => some (.plain "DI" [] [4])
    | _ => some (.plain "EI" [] [4])
  | 4, _ =>
    some ((Opcode.plain "CALL" [condition y, .address] [4, 3, 4, 3, 3]).orCycles [4, 3, 3])
  | 5, 0 => some (.plain "PUSH" [stackPair p] [5, 3, 3])
  | 5, _ => if p = 0 then some (.plain "CALL" [.address] [4, 3, 4, 3, 3]) else none
  | 6, _ => some (arithmetic y .byte [4, 3])
  | _, _ => some (.plain "RST" [restart y] [5, 3, 3])

/-- Opcodes of one byte; none for the four bytes that select another table. -/
def unprefixed (op : UInt8) : Option Opcode :=
  let y := op.toNat / 8 % 8
  let z := op.toNat % 8
  match op.toNat / 64 with
  | 0 => some (unprefixed0 y z)
  | 1 => some (unprefixed1 y z)
  | 2 => some (arithmetic y (register z) (registerOrMemory z [4] [4, 3]))
  | _ => unprefixed3 y z

/-- The argument with `HL` replaced by an index register. -/
def Argument.throughPair (r : IndexRegister) : Argument → Argument
  | hl => index r
  | a => a

/-- The argument with the byte at `HL` replaced by a byte near an index register. -/
def Argument.throughMemory (r : IndexRegister) : Argument → Argument
  | atHL => displaced r
  | a => a

/-- The argument with the halves of `HL` replaced by those of an index register. -/
def Argument.throughHalves (r : IndexRegister) : Argument → Argument
  | h => indexHigh r
  | l => indexLow r
  | a => a

/-- The opcode with every argument replaced. -/
def Opcode.mapArguments (o : Opcode) (f : Argument → Argument) : Opcode :=
  { o with form := ⟨o.form.mnemonic, o.form.arguments.map f⟩ }

/-- Opcodes behind an index byte: the opcode of one byte seen through the index register. `JP (HL)`
takes no displacement, `EX DE,HL` is not affected, and halves of an index register are not
documented. None where the index byte has no effect. -/
def indexed (op : UInt8) (r : IndexRegister) : Option Opcode :=
  (unprefixed op).bind fun o =>
    let arguments := o.form.arguments
    let o := o.selectedBy 2
    if op = 0xE9 then
      some ((o.mapArguments fun _ => .atIndex r).mapCycles fun _ => [4, 4])
    else if .atHL ∈ arguments then
      some ((o.mapArguments (Argument.throughMemory r)).mapCycles fun cycles =>
        if op = 0x36 then [4, 4, 3, 5, 3] else [4, 4, 3, 5] ++ cycles.drop 1)
    else if op ≠ 0xEB ∧ .hl ∈ arguments then
      some ((o.mapArguments (Argument.throughPair r)).mapCycles (4 :: ·))
    else if .h ∈ arguments ∨ .l ∈ arguments then
      some (((o.mapArguments (Argument.throughHalves r)).mapCycles (4 :: ·)).undocumentedIf true)
    else none

/-- Opcodes behind `CB`. -/
def bitwise (op : UInt8) : Opcode :=
  let y := op.toNat / 8 % 8
  let z := op.toNat % 8
  let o := match op.toNat / 64 with
    | 0 =>
      ((Opcode.plain (rotation y) [register z] (registerOrMemory z [4, 4] [4, 4, 4, 3])).affecting
        .rotate).undocumentedIf (y = 6)
    | 1 =>
      (Opcode.plain "BIT" [bitNumber y, register z]
        (registerOrMemory z [4, 4] [4, 4, 4])).affecting .bitTest
    | 2 => .plain "RES" [bitNumber y, register z] (registerOrMemory z [4, 4] [4, 4, 4, 3])
    | _ => .plain "SET" [bitNumber y, register z] (registerOrMemory z [4, 4] [4, 4, 4, 3])
  o.selectedBy 2

/-- Opcodes behind an index byte and `CB`. Those whose field names a register copy the result there
as well, and are not documented. -/
def indexedBitwise (op : UInt8) (r : IndexRegister) : Opcode :=
  let y := op.toNat / 8 % 8
  let z := op.toNat % 8
  let copy := if z = 6 then [] else [register z]
  let o := match op.toNat / 64 with
    | 0 =>
      ((Opcode.plain (rotation y) (.displaced r :: copy) [4, 4, 3, 5, 4, 3]).affecting
        .rotate).undocumentedIf (y = 6)
    | 1 =>
      (Opcode.plain "BIT" [bitNumber y, .displaced r] [4, 4, 3, 5, 4]).affecting .bitTest
    | 2 => .plain "RES" (bitNumber y :: .displaced r :: copy) [4, 4, 3, 5, 4, 3]
    | _ => .plain "SET" (bitNumber y :: .displaced r :: copy) [4, 4, 3, 5, 4, 3]
  (o.undocumentedIf (z ≠ 6)).selectedBy 3

/-- The interrupt mode that a three-bit field names. -/
def interruptMode : Nat → Argument
  | 2 | 6 => .fixed "1"
  | 3 | 7 => .fixed "2"
  | _ => .fixed "0"

/-- The mnemonic of a block instruction, by what it does and by its direction. -/
def blockMnemonic : Nat → Nat → String
  | 4, 0 => "LDI"
  | 4, 1 => "CPI"
  | 4, 2 => "INI"
  | 4, _ => "OUTI"
  | 5, 0 => "LDD"
  | 5, 1 => "CPD"
  | 5, 2 => "IND"
  | 5, _ => "OUTD"
  | 6, 0 => "LDIR"
  | 6, 1 => "CPIR"
  | 6, 2 => "INIR"
  | 6, _ => "OTIR"
  | _, 0 => "LDDR"
  | _, 1 => "CPDR"
  | _, 2 => "INDR"
  | _, _ => "OTDR"

/-- Block instructions: `z` tells what is done to each byte, `y` the direction and whether it is
repeated. -/
def block (y z : Nat) : Opcode :=
  let once := if z ≤ 1 then [4, 4, 3, 5] else [4, 5, 3, 4]
  if 6 ≤ y then
    let flags := match z with
      | 0 => Flags.blockLoadAll
      | 1 => .blockSearch
      | _ => .blockPortAll
    ((Opcode.plain (blockMnemonic y z) [] (once ++ [5])).orCycles once).affecting flags
  else
    let flags := match z with
      | 0 => Flags.blockLoad
      | 1 => .blockSearch
      | _ => .blockPort
    (Opcode.plain (blockMnemonic y z) [] once).affecting flags

/-- What a free place of the table behind `ED` does. -/
def extendedFree : Opcode := (Opcode.plain "NOP" [] [4, 4]).undocumentedIf true

/-- Opcodes behind `ED` with `x = 1`. -/
def extended1 (y z : Nat) : Opcode :=
  let p := y / 2
  match z, y % 2 with
  | 0, _ =>
    if y = 6 then
      ((Opcode.plain "IN" [.fixed "F", .fixed "(C)"] [4, 4, 4]).affecting .input).undocumentedIf true
    else (Opcode.plain "IN" [register y, .fixed "(C)"] [4, 4, 4]).affecting .input
  | 1, _ =>
    if y = 6 then
      (Opcode.plain "OUT" [.fixed "(C)", .fixed "0"] [4, 4, 4]).undocumentedIf true
    else .plain "OUT" [.fixed "(C)", register y] [4, 4, 4]
  | 2, 0 => (Opcode.plain "SBC" [.hl, pair p] [4, 4, 4, 3]).affecting .sub
  | 2, _ => (Opcode.plain "ADC" [.hl, pair p] [4, 4, 4, 3]).affecting .add
  | 3, 0 => (Opcode.plain "LD" [.atAddress, pair p] [4, 4, 3, 3, 3, 3]).undocumentedIf (p = 2)
  | 3, _ => (Opcode.plain "LD" [pair p, .atAddress] [4, 4, 3, 3, 3, 3]).undocumentedIf (p = 2)
  | 4, _ => ((Opcode.plain "NEG" [] [4, 4]).affecting .sub).undocumentedIf (y ≠ 0)
  | 5, _ =>
    if y = 1 then (Opcode.plain "RETI" [] [4, 4, 3, 3]).jumping .unconditional
    else ((Opcode.plain "RETN" [] [4, 4, 3, 3]).jumping .unconditional).undocumentedIf (y ≠ 0)
  | 6, _ => (Opcode.plain "IM" [interruptMode y] [4, 4]).undocumentedIf (y = 1 || 4 ≤ y)
  | _, _ =>
    match y with
    | 0 => .plain "LD" [.fixed "I", .fixed "A"] [4, 5]
    | 1 => .plain "LD" [.fixed "R", .fixed "A"] [4, 5]
    | 2 => (Opcode.plain "LD" [.fixed "A", .fixed "I"] [4, 5]).affecting .loadInterrupt
    | 3 => (Opcode.plain "LD" [.fixed "A", .fixed "R"] [4, 5]).affecting .loadInterrupt
    | 4 => (Opcode.plain "RRD" [] [4, 4, 3, 4, 3]).affecting .input
    | 5 => (Opcode.plain "RLD" [] [4, 4, 3, 4, 3]).affecting .input
    | _ => extendedFree

/-- Opcodes behind `ED`. -/
def extended (op : UInt8) : Opcode :=
  let y := op.toNat / 8 % 8
  let z := op.toNat % 8
  let o := match op.toNat / 64 with
    | 1 => extended1 y z
    | 2 => if z ≤ 3 ∧ 4 ≤ y then block y z else extendedFree
    | _ => extendedFree
  o.selectedBy 2

/-- The opcode selected by a key: the bytes that select it, without displacement, as one number. -/
def lookup? (key : Nat) : Option Opcode :=
  let op := UInt8.ofNat key
  match key / 0x100 with
  | 0 => some ((unprefixed op).getD (.selector 1))
  | 0xCB => some (bitwise op)
  | 0xED => some (extended op)
  | 0xDD => if op = 0xCB then some (.selector 2) else indexed op .ix
  | 0xFD => if op = 0xCB then some (.selector 2) else indexed op .iy
  | 0xDDCB => some (indexedBitwise op .ix)
  | 0xFDCB => some (indexedBitwise op .iy)
  | _ => none

end Z80
end Disassembly
