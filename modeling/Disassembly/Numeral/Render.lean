/-
# Writing numbers

| quantity | hexadecimal | decimal | octal | binary |
| --- | --- | --- | --- | --- |
| operand byte | `#0A` | `10` | `@12` | `%00001010` |
| operand word | `#000A` | `10` | `@12` | `%0000000000001010` |
| address | `000A` | `00010` | `000012` | `0000000000001010` |
| opcode byte | `0A` | `010` | `012` | `00001010` |

A signed operand with its top bit set is a minus sign and its magnitude, and a displacement always
shows its sign. Opcode bytes are run together in hexadecimal and separated by commas otherwise.
-/

import Disassembly.Numeral.Base

namespace Disassembly
namespace Numeral

/-- The digit with value `n`, letters in upper case. -/
def digit (n : Nat) : Char :=
  if n < 10 then Char.ofNat ('0'.toNat + n) else Char.ofNat ('A'.toNat + (n - 10))

/-- The last `count` digits of `n`, with leading zeros. -/
def fixedDigits (radix : Nat) : Nat → Nat → List Char
  | 0, _ => []
  | count + 1, n => fixedDigits radix count (n / radix) ++ [digit (n % radix)]

/-- The digits of `n` without leading zeros; zero is one digit. -/
def digits (radix n : Nat) : List Char := (Nat.toDigits radix n).map Char.toUpper

/-- The number in exactly `count` digits. -/
def fixed (base : Base) (count n : Nat) : String :=
  String.ofList (fixedDigits base.radix count n)

/-- The number in as few digits as it takes. -/
def plain (base : Base) (n : Nat) : String := String.ofList (digits base.radix n)

/-- A number in decimal. -/
def decimal (n : Nat) : String := plain .decimal n

/-- An integer in decimal, with a minus sign when it is negative. -/
def integer (n : Int) : String :=
  if n < 0 then "-" ++ decimal n.natAbs else decimal n.natAbs

/-- A hexadecimal number with leading zeros up to `count` digits, and more digits if it takes
more. -/
def hexAtLeast (count n : Nat) : String :=
  if (digits 16 n).length ≤ count then fixed .hex count n else plain .hex n

/-- An address as messages and stored directives write it: four hexadecimal digits. -/
def hexWord (n : UInt16) : String := fixed .hex 4 n.toNat

/-- An operand value without its sign. -/
def magnitude (value : Nat) (width : Width) (base : Base) : String :=
  match base, width with
  | .hex, .byte => "#" ++ fixed .hex 2 value
  | .hex, .word => "#" ++ fixed .hex 4 value
  | .decimal, _ => plain .decimal value
  | .octal, _ => "@" ++ plain .octal value
  | .binary, .byte => "%" ++ fixed .binary 8 value
  | .binary, .word => "%" ++ fixed .binary 16 value

/-- An operand value, taken modulo its width. A signed value in the upper half of its range is
written as a minus sign and its distance to the top of the range. -/
def operand (value : Nat) (width : Width) (base : Base) (signed : Bool) : String :=
  let value := value % width.modulus
  if signed ∧ width.modulus / 2 ≤ value then
    "-" ++ magnitude (width.modulus - value) width base
  else magnitude value width base

/-- An index displacement, its sign first. -/
def displacement (d : Int8) (base : Base) : String :=
  (if d < 0 then "-" else "+") ++ magnitude d.toInt.natAbs .byte base

/-- How many digits an address has. -/
def addressWidth : Base → Nat
  | .hex => 4
  | .decimal => 5
  | .octal => 6
  | .binary => 16

/-- An address, in as many digits as the largest address has. -/
def address (a : UInt16) (base : Base) : String := fixed base (addressWidth base) a.toNat

/-- How many digits an opcode byte has. -/
def opcodeWidth : Base → Nat
  | .hex => 2
  | .decimal => 3
  | .octal => 3
  | .binary => 8

/-- The bytes of an instruction. -/
def opcodeBytes (bytes : List UInt8) (base : Base) : String :=
  let items := bytes.map fun b => fixed base (opcodeWidth base) b.toNat
  match base with
  | .hex => String.join items
  | _ => String.intercalate "," items

end Numeral
end Disassembly
