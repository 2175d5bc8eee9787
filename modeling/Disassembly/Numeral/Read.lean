/-
# Reading numbers

Numbers in arguments and options are decimal, or hexadecimal behind `#`, `$`, `0x` or `0X`, with an
optional minus sign in front. A hexadecimal number has at most eight digits, and a decimal number is
below `2 ^ 63`.
-/

import Disassembly.Text.Blank

namespace Disassembly
namespace Numeral

/-- The value of a hexadecimal digit in either case. -/
def hexValue? (c : Char) : Option Nat :=
  if '0' ≤ c ∧ c ≤ '9' then some (c.toNat - '0'.toNat)
  else if 'a' ≤ c ∧ c ≤ 'f' then some (c.toNat - 'a'.toNat + 10)
  else if 'A' ≤ c ∧ c ≤ 'F' then some (c.toNat - 'A'.toNat + 10)
  else none

/-- The value of a run of hexadecimal digits after the value read so far. -/
def hexFrom? (value : Nat) : List Char → Option Nat
  | [] => some value
  | c :: cs => (hexValue? c).bind fun d => hexFrom? (16 * value + d) cs

/-- The value of one to eight hexadecimal digits. -/
def readHex? (cs : List Char) : Option Nat :=
  if cs = [] ∨ 8 < cs.length then none else hexFrom? 0 cs

/-- The value of a run of decimal digits after the value read so far. -/
def decimalFrom? (value : Nat) : List Char → Option Nat
  | [] => some value
  | c :: cs =>
    if '0' ≤ c ∧ c ≤ '9' then decimalFrom? (10 * value + (c.toNat - '0'.toNat)) cs else none

/-- The value of one or more decimal digits. -/
def readDecimal? (cs : List Char) : Option Nat :=
  if cs = [] then none else decimalFrom? 0 cs

/-- A number that may have a plus sign and stays within `limit`. -/
def readCount? (limit : Nat) (cs : List Char) : Option Nat :=
  let digits := match cs with
    | '+' :: rest => rest
    | _ => cs
  (readDecimal? digits).filter (· ≤ limit)

/-- A number without its sign. -/
def readMagnitude? : List Char → Option Nat
  | '#' :: cs => readHex? cs
  | '$' :: cs => readHex? cs
  | '0' :: 'x' :: cs => readHex? cs
  | '0' :: 'X' :: cs => readHex? cs
  | cs => (readDecimal? cs).filter (· < 0x8000000000000000)

/-- A number between blanks, with an optional minus sign. -/
def readNumber? (cs : List Char) : Option Int :=
  match Text.trim cs with
  | '-' :: rest => (readMagnitude? rest).map fun n => -(n : Int)
  | rest => (readMagnitude? rest).map fun n => (n : Int)

end Numeral
end Disassembly
