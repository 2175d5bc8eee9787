/-
# Changes of scope

A change sets one formatting option, or all of them at once. Changes have option numbers in stored
directives, and those with a simple value store it as one byte.
-/

import Disassembly.Scope.Basic

namespace Disassembly
namespace Scope

/-- A change of one formatting option, or of all of them. -/
inductive Change
  | addressBase (base : Base)
  | numberBase (base : Base)
  | opcodeBytes (base : Option Base)
  | timing (display : TimingDisplay)
  | lineAfterJump (lines : LineAfterJump)
  | labels (policy : LabelPolicy)
  | labelPeriod (lines : UInt8)
  | comments (shown : Bool)
  | separator (text : String)
  | flags (shown : Bool)
  | markUndocumented (shown : Bool)
  | markup (shown : Bool)
  | dataReferences (counted : Bool)
  /-- Set every option. -/
  | custom (scope : Scope)
  deriving DecidableEq

namespace Change

/-- The scope after the change. -/
def apply : Change → Scope → Scope
  | addressBase base, s => { s with addressBase := base }
  | numberBase base, s => { s with numberBase := base }
  | opcodeBytes base, s => { s with opcodeBytes := base }
  | timing display, s => { s with timing := display }
  | lineAfterJump lines, s => { s with lineAfterJump := lines }
  | labels policy, s => { s with labels := policy }
  | labelPeriod lines, s => { s with labelPeriod := lines }
  | comments shown, s => { s with comments := shown }
  | separator text, s => { s with separator := text }
  | flags shown, s => { s with flags := shown }
  | markUndocumented shown, s => { s with markUndocumented := shown }
  | markup shown, s => { s with markup := shown }
  | dataReferences counted, s => { s with dataReferences := counted }
  | custom scope, _ => scope

/-- The option number of the change. -/
def option : Change → UInt8
  | addressBase _ => 0x01
  | numberBase _ => 0x02
  | opcodeBytes _ => 0x03
  | timing _ => 0x04
  | lineAfterJump _ => 0x05
  | labels _ => 0x06
  | labelPeriod _ => 0x07
  | comments _ => 0x08
  | separator _ => 0x09
  | flags _ => 0x0A
  | markUndocumented _ => 0x0B
  | markup _ => 0x0C
  | dataReferences _ => 0x0D
  | custom _ => 0xFF

/-- The byte of a truth value. -/
def boolByte (b : Bool) : UInt8 := if b then 1 else 0

/-- The value of a change as one byte; none for a separator and for a whole scope. -/
def byte? : Change → Option UInt8
  | addressBase base => some (UInt8.ofNat base.code)
  | numberBase base => some (UInt8.ofNat base.code)
  | opcodeBytes none => some 0xFF
  | opcodeBytes (some base) => some (UInt8.ofNat base.code)
  | timing display => some (UInt8.ofNat display.code)
  | lineAfterJump lines => some (UInt8.ofNat lines.code)
  | labels policy => some (UInt8.ofNat policy.code)
  | labelPeriod lines => some lines
  | comments shown => some (boolByte shown)
  | flags shown => some (boolByte shown)
  | markUndocumented shown => some (boolByte shown)
  | markup shown => some (boolByte shown)
  | dataReferences counted => some (boolByte counted)
  | separator _ => none
  | custom _ => none

/-- The change with a simple value, by its option number and the byte of its value. -/
def ofOption? (option value : UInt8) : Option Change :=
  let n := value.toNat
  match option.toNat with
  | 0x01 => some (addressBase (.ofCode n))
  | 0x02 => some (numberBase (.ofCode n))
  | 0x03 => some (opcodeBytes (if value = 0xFF then none else some (.ofCode n)))
  | 0x04 => some (timing (.ofCode n))
  | 0x05 => some (lineAfterJump (.ofCode n))
  | 0x06 => some (labels (.ofCode n))
  | 0x07 => some (labelPeriod value)
  | 0x08 => some (comments (value ≠ 0))
  | 0x0A => some (flags (value ≠ 0))
  | 0x0B => some (markUndocumented (value ≠ 0))
  | 0x0C => some (markup (value ≠ 0))
  | 0x0D => some (dataReferences (value ≠ 0))
  | _ => none

end Change
end Scope
end Disassembly
