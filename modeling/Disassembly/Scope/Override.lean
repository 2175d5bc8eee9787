/-
# Overrides

An override sets some formatting options and leaves the others as they are. Project files and
command lines give overrides. Of two overrides the later one wins, option by option.
-/

import Disassembly.Scope.Basic

namespace Disassembly
namespace Scope

/-- Options to set, where given. An override can show opcode bytes, but not hide them. -/
structure Override where
  addressBase : Option Base := none
  numberBase : Option Base := none
  opcodeBytes : Option Base := none
  timing : Option TimingDisplay := none
  lineAfterJump : Option LineAfterJump := none
  labels : Option LabelPolicy := none
  labelPeriod : Option UInt8 := none
  comments : Option Bool := none
  separator : Option String := none
  flags : Option Bool := none
  markUndocumented : Option Bool := none
  markup : Option Bool := none
  dataReferences : Option Bool := none
  deriving DecidableEq

namespace Override

/-- The scope with the given options set. -/
def apply (o : Override) (s : Scope) : Scope :=
  { addressBase := o.addressBase.getD s.addressBase
    numberBase := o.numberBase.getD s.numberBase
    opcodeBytes := o.opcodeBytes.or s.opcodeBytes
    timing := o.timing.getD s.timing
    lineAfterJump := o.lineAfterJump.getD s.lineAfterJump
    labels := o.labels.getD s.labels
    labelPeriod := o.labelPeriod.getD s.labelPeriod
    comments := o.comments.getD s.comments
    separator := o.separator.getD s.separator
    flags := o.flags.getD s.flags
    markUndocumented := o.markUndocumented.getD s.markUndocumented
    markup := o.markup.getD s.markup
    dataReferences := o.dataReferences.getD s.dataReferences }

/-- The default scope with the given options set. -/
def scope (o : Override) : Scope := o.apply {}

/-- Both overrides, where options in `later` win. -/
def merge (o later : Override) : Override :=
  { addressBase := later.addressBase.or o.addressBase
    numberBase := later.numberBase.or o.numberBase
    opcodeBytes := later.opcodeBytes.or o.opcodeBytes
    timing := later.timing.or o.timing
    lineAfterJump := later.lineAfterJump.or o.lineAfterJump
    labels := later.labels.or o.labels
    labelPeriod := later.labelPeriod.or o.labelPeriod
    comments := later.comments.or o.comments
    separator := later.separator.or o.separator
    flags := later.flags.or o.flags
    markUndocumented := later.markUndocumented.or o.markUndocumented
    markup := later.markup.or o.markup
    dataReferences := later.dataReferences.or o.dataReferences }

end Override
end Scope
end Disassembly
