/-
# Routine calls

The routines a script can call by name. A search hands back a truth value, which the calling block
takes as the result of a test; a dump hands back none.
-/

import Disassembly.Routine.Dump
import Disassembly.Routine.Message
import Disassembly.Routine.Search

namespace Disassembly
namespace Routine

open Script

/-- Call a routine, whose name is read in any case, with the text of its arguments. -/
def call (setting : Setting) (name arguments : String) : Action (Option Bool) := do
  let a ← Action.ofExcept (Arguments.read name arguments)
  match name.toLower with
  | "bytedump" => byteDump setting a; return none
  | "worddump" => wordDump setting a; return none
  | "messagedump" => messageDump setting a; return none
  | "findbytes" => return some (← findBytes setting a)
  | "offsetrange" => return some (← offsetRange a)
  | _ => throw (.unknownRoutine name)

end Routine
end Disassembly
