/-
# Bases and widths

A listing writes numbers in one of four bases. A base has a two-bit code, used in stored directives
and scripts, and a short name. A rendered quantity is a byte or a word.
-/

namespace Disassembly

/-- The four bases a number can be written in. -/
inductive Base
  | hex
  | decimal
  | octal
  | binary
  deriving DecidableEq

namespace Base

/-- The two-bit code of the base. -/
def code : Base → Nat
  | hex => 0
  | decimal => 1
  | octal => 2
  | binary => 3

/-- The base whose code is the low two bits of `n`. -/
def ofCode (n : Nat) : Base :=
  match n % 4 with
  | 0 => hex
  | 1 => decimal
  | 2 => octal
  | _ => binary

/-- How many digits the base has. -/
def radix : Base → Nat
  | hex => 16
  | decimal => 10
  | octal => 8
  | binary => 2

/-- The short name of the base. -/
def name : Base → String
  | hex => "hex"
  | decimal => "dec"
  | octal => "oct"
  | binary => "bin"

/-- The base as it is named in explanations. -/
def title : Base → String
  | hex => "Hex"
  | decimal => "Decimal"
  | octal => "Octal"
  | binary => "Binary"

/-- The base with the given short name, long name or code, in any case. -/
def ofName? (name : String) : Option Base :=
  match name.toLower with
  | "hex" | "hexadecimal" | "0" => some hex
  | "dec" | "decimal" | "1" => some decimal
  | "oct" | "octal" | "2" => some octal
  | "bin" | "binary" | "3" => some binary
  | _ => none

end Base

/-- The width of a rendered quantity. -/
inductive Width
  | byte
  | word
  deriving DecidableEq

namespace Width

/-- How many bytes the quantity takes. -/
def bytes : Width → Nat
  | byte => 1
  | word => 2

/-- How many values the quantity can have. -/
def modulus : Width → Nat
  | byte => 0x100
  | word => 0x10000

end Width
end Disassembly
