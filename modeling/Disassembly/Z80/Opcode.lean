/-
# Opcodes

What is known of one opcode: its form, its effects on flags and control flow, its timing, and how
many bytes come before its operand bytes or between them.
-/

import Disassembly.Z80.Flags
import Disassembly.Z80.Form
import Disassembly.Z80.Timing

namespace Disassembly
namespace Z80

/-- How an instruction redirects control flow. -/
inductive Jump
  | none
  | unconditional
  | conditional
  deriving DecidableEq

/-- One opcode. -/
structure Opcode where
  /-- How the instruction is written. -/
  form : Form
  /-- Its effects on the flags. -/
  flags : Flags
  /-- Its execution time. -/
  timing : Timing
  /-- Whether the documentation of the processor leaves it out. -/
  undocumented : Bool
  /-- How many bytes of the instruction select the opcode. -/
  selectors : Nat
  /-- How it redirects control flow. -/
  jump : Jump
  /-- Whether it only selects a further table. -/
  isSelector : Bool

namespace Opcode

/-- How many bytes the instruction has. -/
def length (o : Opcode) : Nat := o.selectors + o.form.operandBytes

/-- A documented opcode of one byte that affects no flags and does not jump. -/
def plain (mnemonic : String) (arguments : List Argument) (cycles : List Nat) : Opcode :=
  { form := ⟨mnemonic, arguments⟩
    flags := .none
    timing := .cycles cycles none
    undocumented := false
    selectors := 1
    jump := .none
    isSelector := false }

/-- The opcode with these effects on the flags. -/
def affecting (o : Opcode) (flags : Flags) : Opcode := { o with flags }

/-- The opcode with a shorter path of these states. -/
def orCycles (o : Opcode) (alternate : List Nat) : Opcode :=
  match o.timing with
  | .cycles primary _ => { o with timing := .cycles primary (some alternate) }
  | .total _ => o

/-- The opcode with the states of its longer path changed. -/
def mapCycles (o : Opcode) (f : List Nat → List Nat) : Opcode :=
  match o.timing with
  | .cycles primary alternate => { o with timing := .cycles (f primary) alternate }
  | .total _ => o

/-- The opcode as a jump. -/
def jumping (o : Opcode) (jump : Jump) : Opcode := { o with jump }

/-- The opcode, undocumented if `condition` holds. -/
def undocumentedIf (o : Opcode) (condition : Bool) : Opcode :=
  { o with undocumented := o.undocumented || condition }

/-- The opcode selected by `selectors` bytes. -/
def selectedBy (o : Opcode) (selectors : Nat) : Opcode := { o with selectors }

/-- The entry for bytes that only select a further table. -/
def selector (selectors : Nat) : Opcode :=
  { form := ⟨"", []⟩
    flags := .none
    timing := .total 0
    undocumented := false
    selectors
    jump := .none
    isSelector := true }

/-- What an index byte stands for when the byte after it has no indexed form. -/
def ignoredIndex : Opcode :=
  { form := ⟨"NOP", []⟩
    flags := .none
    timing := .total 4
    undocumented := true
    selectors := 1
    jump := .none
    isSelector := false }

end Opcode
end Z80
end Disassembly
