/-
# Running commands

The outer layer of the commands. It says how the paths of a project are resolved, and turns the end
of a command into an exit code and a message. A path is made of parts between slashes. Empty parts
are dropped, and no part has a special meaning here.
-/

import Disassembly.Command.Perform

namespace Disassembly
namespace Path

/-- The parts of a relative path. -/
def parts (path : String) : List String :=
  ((Text.splitOn '/' path.toList).filter (· ≠ [])).map String.ofList

/-- A relative path seen from a directory. -/
def under (root path : String) : String :=
  (parts path).foldl (fun p part => if p.isEmpty then part else p ++ "/" ++ part) root

instance : Resolver := ⟨under⟩

end Path

namespace Command

/-- Run a command line. Returns the exit code, or none if it is not a use of the commands. -/
def run {m : Type → Type} [Monad m] (host : Host m) (args : List String) : m (Option UInt32) := do
  match read? args with
  | none => return none
  | some i =>
    match ← (perform host i).run with
    | .ok _ => return some 0
    | .error failure =>
      host.err ("Error: " ++ failure.report ++ "\n")
      return some 1

end Command
end Disassembly
