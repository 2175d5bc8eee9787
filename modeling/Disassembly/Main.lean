/-
# The command

The command line program, on the files of the system.
-/

import Disassembly.Command.Run

namespace Disassembly
namespace Command

/-- The file error behind an error of the system. -/
def fileErrorOf (e : IO.Error) : FileError :=
  match e with
  | .noFileOrDirectory .. => .notFound
  | .inappropriateType .. => .isDirectory
  | _ => .notDirectory

/-- The files and streams of the system. -/
def systemHost : Host IO where
  load path := do
    try
      return .ok (← IO.FS.readBinFile path).data
    catch e => return .error (fileErrorOf e)
  save path text := do
    try
      IO.FS.writeFile path text
      return .ok ()
    catch e => return .error (fileErrorOf e)
  out := IO.print
  err := IO.eprint

/-- What is shown when the arguments are not a use of the commands. -/
def usage : String :=
  "usage: dis [--image FILE] [--origin N] [--offset N] [--length N] [--output FILE] [--progress]\n" ++
  "       directives [--explain] [--presets]\n"

end Command
end Disassembly

/-- Run the command line program. -/
def main (args : List String) : IO UInt32 := do
  match ← Disassembly.Command.run Disassembly.Command.systemHost args with
  | some code => return code
  | none =>
    IO.eprint Disassembly.Command.usage
    return 1
