/-
# Flag effects

How an instruction affects the six documented bits of the register `F`, in the order sign, zero,
half carry, parity or overflow, subtract, carry. Each effect has a one-character symbol, and the
flags column of a listing is the six symbols in that order.
-/

namespace Disassembly
namespace Z80

/-- How an instruction affects one bit of the register `F`. -/
inductive FlagEffect
  | unaffected
  | expected
  | reset
  | set
  | parity
  | overflow
  | undefined
  deriving DecidableEq

/-- The symbol of an effect in the flags column. -/
def FlagEffect.symbol : FlagEffect → Char
  | unaffected => '-'
  | expected => '*'
  | reset => '0'
  | set => '1'
  | parity => 'P'
  | overflow => 'V'
  | undefined => '?'

/-- The effects of an instruction on the six flags. -/
structure Flags where
  sign : FlagEffect
  zero : FlagEffect
  halfCarry : FlagEffect
  parity : FlagEffect
  subtract : FlagEffect
  carry : FlagEffect
  deriving DecidableEq

namespace Flags

/-- The six effects in the order of the flags column. -/
def toList (f : Flags) : List FlagEffect :=
  [f.sign, f.zero, f.halfCarry, f.parity, f.subtract, f.carry]

/-- The flags column. -/
def describe (f : Flags) : String := String.ofList (f.toList.map FlagEffect.symbol)

/-- Whether the instruction affects any flag. -/
def any (f : Flags) : Bool := f.toList.any (· ≠ .unaffected)

/-- No flag is affected. -/
def none : Flags :=
  ⟨.unaffected, .unaffected, .unaffected, .unaffected, .unaffected, .unaffected⟩

/-- Every flag is loaded. -/
def all : Flags := ⟨.expected, .expected, .expected, .expected, .expected, .expected⟩

/-- Addition of bytes, or of words with carry. -/
def add : Flags := ⟨.expected, .expected, .expected, .overflow, .reset, .expected⟩

/-- Subtraction, comparison and negation. -/
def sub : Flags := ⟨.expected, .expected, .expected, .overflow, .set, .expected⟩

/-- Logical conjunction. -/
def conjunction : Flags := ⟨.expected, .expected, .set, .parity, .reset, .reset⟩

/-- Logical disjunction, exclusive or not. -/
def disjunction : Flags := ⟨.expected, .expected, .reset, .parity, .reset, .reset⟩

/-- Addition of words without carry. -/
def addWord : Flags := ⟨.unaffected, .unaffected, .expected, .unaffected, .reset, .expected⟩

/-- Increment of a byte. -/
def increment : Flags := ⟨.expected, .expected, .expected, .overflow, .reset, .unaffected⟩

/-- Decrement of a byte. -/
def decrement : Flags := ⟨.expected, .expected, .expected, .overflow, .set, .unaffected⟩

/-- Rotation of the accumulator. -/
def rotateAccumulator : Flags :=
  ⟨.unaffected, .unaffected, .reset, .unaffected, .reset, .expected⟩

/-- Decimal adjustment. -/
def decimalAdjust : Flags :=
  ⟨.expected, .expected, .expected, .parity, .unaffected, .expected⟩

/-- Complement of the accumulator. -/
def complement : Flags := ⟨.unaffected, .unaffected, .set, .unaffected, .set, .unaffected⟩

/-- The carry is set. -/
def setCarry : Flags := ⟨.unaffected, .unaffected, .reset, .unaffected, .reset, .set⟩

/-- The carry is complemented. -/
def complementCarry : Flags :=
  ⟨.unaffected, .unaffected, .expected, .unaffected, .reset, .expected⟩

/-- Rotation or shift of a byte. -/
def rotate : Flags := ⟨.expected, .expected, .reset, .parity, .reset, .expected⟩

/-- Test of a bit. -/
def bitTest : Flags := ⟨.undefined, .expected, .set, .undefined, .reset, .unaffected⟩

/-- Input of a byte, and rotation of decimal digits. -/
def input : Flags := ⟨.expected, .expected, .reset, .parity, .reset, .unaffected⟩

/-- Load from the interrupt or refresh register. -/
def loadInterrupt : Flags :=
  ⟨.expected, .expected, .reset, .expected, .reset, .unaffected⟩

/-- Transfer of one byte of a block. -/
def blockLoad : Flags :=
  ⟨.unaffected, .unaffected, .reset, .expected, .reset, .unaffected⟩

/-- Transfer of a whole block. -/
def blockLoadAll : Flags :=
  ⟨.unaffected, .unaffected, .reset, .reset, .reset, .unaffected⟩

/-- Search in a block. -/
def blockSearch : Flags :=
  ⟨.expected, .expected, .expected, .expected, .set, .unaffected⟩

/-- Input or output of one byte of a block. -/
def blockPort : Flags :=
  ⟨.undefined, .expected, .undefined, .undefined, .set, .unaffected⟩

/-- Input or output of a whole block. -/
def blockPortAll : Flags :=
  ⟨.undefined, .set, .undefined, .undefined, .set, .unaffected⟩

end Flags
end Z80
end Disassembly
