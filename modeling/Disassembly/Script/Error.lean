/-
# Script errors

What can go wrong in a script. An error is raised by a construct without its place, and located by
the block that runs the construct: at the `%` that begins it, as a line and a column, with the
current address of the image and the next characters of the program.
-/

import Disassembly.Numeral.Render
import Disassembly.Text.Quoted

namespace Disassembly
namespace Script

/-- What is wrong with an argument list. -/
inductive ArgumentFlaw
  | missingOpen
  | unterminated
  | badValue (key : String)
  | badArgument (text : String)
  | notString (name : String)
  | notInteger (name : String)
  | notBetween (name : String) (max : Int)
  | notBoolean (name : String)
  | unknownBase (text : String)
  | notBase (name : String)
  | unknownTerminator
  | oddPattern
  | patternDigit
  | badPosition

/-- The flaw in words. -/
def ArgumentFlaw.message : ArgumentFlaw → String
  | missingOpen => "expected ( after routine name"
  | unterminated => "unterminated argument list"
  | badValue key => "bad value for " ++ key
  | badArgument text => "bad argument " ++ Text.quote text
  | notString name => name ++ " must be a string"
  | notInteger name => name ++ " must be an integer"
  | notBetween name max => name ++ " must be between 0 and " ++ Numeral.integer max
  | notBoolean name => name ++ " must be true or false"
  | unknownBase text => "unknown base " ++ Text.quote text
  | notBase name => name ++ " must be a base"
  | unknownTerminator => "unknown terminator"
  | oddPattern => "bytes must be whole hex pairs"
  | patternDigit => "bad hex digit in bytes"
  | badPosition => "position must be B, E or A"

/-- What went wrong. -/
inductive ErrorKind
  | unknownTag (tag : Char)
  | missingOpen
  | missingClose
  | unbalancedClose
  | badHex (c : Char)
  | unexpectedEnd
  | badOperand (selector : UInt8)
  | outOfRange (address : Nat)
  | divisionByZero
  | readOnlySlot (slot : UInt8)
  | unknownOperation (operation : Nat)
  | unknownComparison (name : String)
  | unknownCommentKind (letter : Char)
  | unknownRoutine (name : String)
  | badArgument (routine : String) (flaw : ArgumentFlaw)
  | loopLimit (iterations : Nat)
  /-- A dump went round the whole address space without reaching the end of its block. -/
  | endless

/-- The error in words. -/
def ErrorKind.message : ErrorKind → String
  | unknownTag tag => "unknown tag %" ++ String.singleton tag
  | missingOpen => "expected %( to open a block"
  | missingClose => "block is never closed"
  | unbalancedClose => "%) without a matching %("
  | badHex c => "bad hex digit " ++ Text.quoteChar c
  | unexpectedEnd => "program ended inside a construct"
  | badOperand selector => "operand " ++ Numeral.fixed .hex 2 selector.toNat ++ " cannot be used here"
  | outOfRange address => "read outside the image at " ++ Numeral.hexAtLeast 4 address
  | divisionByZero => "division by zero"
  | readOnlySlot slot => "slot " ++ Numeral.decimal slot.toNat ++ " is read-only"
  | unknownOperation operation => "unknown arithmetic operation " ++ Numeral.plain .hex operation
  | unknownComparison name => "unknown comparison " ++ Text.quote name
  | unknownCommentKind letter => "unknown comment kind " ++ Text.quoteChar letter
  | unknownRoutine name => "unknown routine " ++ Text.quote name
  | badArgument routine flaw => "bad argument to " ++ routine ++ ": " ++ flaw.message
  | loopLimit iterations =>
    "loop ran for more than " ++ Numeral.decimal iterations ++ " iterations"
  | endless => "dump never reaches the end of its block"

/-- An error with its place in the program and in the image. -/
structure Error where
  kind : ErrorKind
  /-- The line of the construct, from one. -/
  line : Nat
  /-- The column of the construct, from one. -/
  column : Nat
  /-- The current address. -/
  address : UInt16
  /-- The program from the construct on, at most sixteen characters of it. -/
  snippet : String

/-- The error in words. -/
def Error.message (e : Error) : String :=
  e.kind.message ++ " at line " ++ Numeral.decimal e.line ++ ", column " ++
    Numeral.decimal e.column ++ " (address " ++ Numeral.hexWord e.address ++ ") near " ++
    Text.quote e.snippet

/-- How much of the program an error shows. -/
def snippetLength : Nat := 16

/-- The error of a construct, given the program and the part of it from the construct on. -/
def locate (program rest : List Char) (kind : ErrorKind) (address : UInt16) : Error :=
  let gone := program.take (program.length - rest.length)
  { kind
    line := gone.count '\n' + 1
    column := (gone.reverse.takeWhile (· ≠ '\n')).length + 1
    address
    snippet := String.ofList (rest.take snippetLength) }

end Script
end Disassembly
