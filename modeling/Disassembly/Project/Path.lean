/-
# Paths

Paths in a project are relative to the directory of the project file. How such a path is seen from
that directory is left to whoever runs the programs of the project.
-/

import Disassembly.Text.Offset

namespace Disassembly
namespace Path

/-- A way to see the paths of a project from its directory. -/
class Resolver where
  /-- The path of a file, from the directory of the project and the path that the project gives. -/
  toPath : String → String → String

/-- Whether a part at the end of a path adds nothing to it. -/
def isIdle (part : List Char) : Bool := part = [] || part = ['.']

/-- The parts of a path, last first, without idle parts at the end; the first part always stays. -/
def dropIdle : List (List Char) → List (List Char)
  | [] => []
  | [part] => [part]
  | part :: rest => if isIdle part then dropIdle rest else part :: rest

/-- The directory that holds a file; empty for the current one. -/
def parent (file : String) : String :=
  match dropIdle (Text.splitOn '/' file.toList).reverse with
  | [] => ""
  | [_] => ""
  | _ :: rest =>
    match dropIdle rest with
    | [[]] => "/"
    | kept => String.ofList (List.intercalate ['/'] kept.reverse)

end Path
end Disassembly
