/-
# Arguments of routines

The arguments of a routine are strings in quotes, truth values and numbers, separated by commas. An
argument is found by its name, written `name=value`, or else by its place among those without a name.
-/

import Disassembly.Numeral.Base
import Disassembly.Numeral.Read
import Disassembly.Script.Error
import Disassembly.Script.Source

namespace Disassembly
namespace Routine

open Script (ErrorKind ArgumentFlaw)

/-- The value of an argument. -/
inductive Value
  | string (s : String)
  | int (n : Int)
  | bool (b : Bool)

namespace Value

/-- A text without the backslashes that mark characters; none if a backslash marks nothing. -/
def unescape? : List Char → Option (List Char)
  | [] => some []
  | c :: cs =>
    if c = '\\' then
      match cs with
      | [] => none
      | d :: cs => (unescape? cs).map (d :: ·)
    else (unescape? cs).map (c :: ·)

/-- The text between quotes, the first one read already. -/
def readQuoted? (cs : List Char) : Option String :=
  match cs.getLast? with
  | some '"' => (unescape? cs.dropLast).map String.ofList
  | _ => none

/-- Read a value. -/
def read? (cs : List Char) : Option Value :=
  match cs with
  | '"' :: cs => (readQuoted? cs).map string
  | _ =>
    match (String.ofList cs).toLower with
    | "true" => some (bool true)
    | "false" => some (bool false)
    | _ => (Numeral.readNumber? cs).map int

end Value

/-- The parts of an argument list, separated by commas outside quotes. -/
def splitArguments (quoted escaped : Bool) : List Char → List (List Char)
  | [] => [[]]
  | c :: cs =>
    let add (rest : List (List Char)) : List (List Char) :=
      match rest with
      | [] => [[c]]
      | part :: parts => (c :: part) :: parts
    if escaped then add (splitArguments quoted false cs)
    else if quoted && c = '\\' then add (splitArguments quoted true cs)
    else if c = '"' then add (splitArguments (!quoted) false cs)
    else if !quoted && c = ',' then [] :: splitArguments quoted false cs
    else add (splitArguments quoted false cs)

/-- The name and the value of an argument that has a name. -/
def splitName? (part : List Char) : Option (String × List Char) :=
  let name := part.takeWhile Script.Source.isWord
  match name, Text.trimStart (part.drop name.length) with
  | _ :: _, '=' :: value => some ((String.ofList name).toLower, Text.trim value)
  | _, _ => none

/-- The arguments of a call. -/
structure Arguments where
  routine : String
  positional : List Value
  named : List (String × Value)

namespace Arguments

/-- The failure of an argument. -/
def error {α : Type} (a : Arguments) (flaw : ArgumentFlaw) : Except ErrorKind α :=
  .error (.badArgument a.routine flaw)

/-- The arguments with one more. -/
def add (a : Arguments) (part : List Char) : Except ErrorKind Arguments :=
  match splitName? part with
  | some (name, value) =>
    match Value.read? value with
    | some v => .ok { a with named := a.named ++ [(name, v)] }
    | none => a.error (.badValue name)
  | none =>
    match Value.read? part with
    | some v => .ok { a with positional := a.positional ++ [v] }
    | none => a.error (.badArgument (String.ofList part))

/-- Read the arguments of a call of `routine`. -/
def read (routine text : String) : Except ErrorKind Arguments :=
  let cs := text.toList
  if Text.trim cs = [] then .ok ⟨routine, [], []⟩
  else (splitArguments false false cs).foldlM (fun a part => a.add (Text.trim part)) ⟨routine, [], []⟩

/-- The argument with a name, or else the one at a place. -/
def get? (a : Arguments) (name : String) (index : Nat) : Option Value :=
  match a.named.find? fun pair => pair.1 = name with
  | some pair => some pair.2
  | none => a.positional[index]?

/-- A string, if it is given. -/
def string? (a : Arguments) (name : String) (index : Nat) : Except ErrorKind (Option String) :=
  match a.get? name index with
  | none => .ok none
  | some (.string s) => .ok (some s)
  | some _ => a.error (.notString name)

/-- A string, or a default. -/
def string (a : Arguments) (name : String) (index : Nat) (default : String) :
    Except ErrorKind String :=
  (a.string? name index).map (·.getD default)

/-- An integer, or a default. -/
def int (a : Arguments) (name : String) (index : Nat) (default : Int) : Except ErrorKind Int :=
  match a.get? name index with
  | none => .ok default
  | some (.int n) => .ok n
  | some _ => a.error (.notInteger name)

/-- An integer from zero to `max`, or a default. -/
def count (a : Arguments) (name : String) (index : Nat) (default max : Int) :
    Except ErrorKind Nat := do
  let n ← a.int name index default
  if n < 0 ∨ max < n then a.error (.notBetween name max) else return n.toNat

/-- A truth value, or a default. A number is true unless it is zero. -/
def bool (a : Arguments) (name : String) (index : Nat) (default : Bool) : Except ErrorKind Bool :=
  match a.get? name index with
  | none => .ok default
  | some (.bool b) => .ok b
  | some (.int n) => .ok (n ≠ 0)
  | some (.string _) => a.error (.notBoolean name)

/-- A base by its name or code, or a default. -/
def base (a : Arguments) (name : String) (index : Nat) (default : Base) : Except ErrorKind Base :=
  match a.get? name index with
  | none => .ok default
  | some (.int n) => if 0 ≤ n ∧ n ≤ 3 then .ok (.ofCode n.toNat) else a.error (.notBase name)
  | some (.string s) =>
    match Base.ofName? s with
    | some base => .ok base
    | none => a.error (.unknownBase s)
  | some (.bool _) => a.error (.notBase name)

end Arguments
end Routine
end Disassembly
