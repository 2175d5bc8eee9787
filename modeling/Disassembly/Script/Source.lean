/-
# Script source

A script is literal text with constructs in it. A construct is `%`, a tag character and operands of
fixed width in hexadecimal, so a script is read from left to right without a parse beforehand. The
functions here take the rest of a script and give what is left after reading something from it.

Line breaks and the blanks after them are layout. So are comments, from `%'` to the end of the line.
A block stands between `%(` and `%)`, and blocks nest.
-/

import Disassembly.Numeral.Read
import Disassembly.Script.Error

namespace Disassembly
namespace Script
namespace Source

/-- Whether the character breaks a line. -/
def isBreak (c : Char) : Bool := c = '\n' || c = '\r'

/-- Whether the character may indent a line. -/
def isIndent (c : Char) : Bool := c = ' ' || c = '\t'

/-- Whether the character may stand in the name of a routine or an argument. -/
def isWord (c : Char) : Bool := c.isAlphanum || c = '_'

/-- After line breaks and the indentation that follows. -/
def skipNewline (cs : List Char) : List Char := (cs.dropWhile isBreak).dropWhile isIndent

/-- At the end of the line. -/
def skipLine (cs : List Char) : List Char := cs.dropWhile fun c => !isBreak c

/-- After blanks and tabs. -/
def skipIndent (cs : List Char) : List Char := cs.dropWhile isIndent

/-- What has been skipped last while skipping layout. -/
inductive Layout
  /-- Nothing, so blanks count as text. -/
  | text
  /-- A line break, so blanks are indentation. -/
  | break
  /-- A part of a comment. -/
  | comment
  deriving DecidableEq

/-- After the layout that continues a piece of layout. -/
def skipLayoutAfter : Layout → List Char → List Char
  | _, [] => []
  | .comment, c :: cs => skipLayoutAfter (if isBreak c then .break else .comment) cs
  | mode, c :: cs =>
    if isBreak c || (mode = .break && isIndent c) then skipLayoutAfter .break cs
    else if c = '%' && cs.head? = some '\'' then skipLayoutAfter .comment cs
    else c :: cs

/-- After line breaks, indentation and comments. -/
def skipLayout (cs : List Char) : List Char := skipLayoutAfter .text cs

/-- The rest after the `%)` that closes a block, with `depth` further blocks open inside it and
`comment` telling whether a comment is being skipped. -/
def skipToCloseAfter (comment : Bool) (depth : Nat) : List Char → Option (List Char)
  | [] => none
  | c :: cs =>
    if comment then skipToCloseAfter (!isBreak c) depth cs
    else if c = '%' then
      match cs with
      | [] => none
      | tag :: cs =>
        if tag = '(' then skipToCloseAfter false (depth + 1) cs
        else if tag = ')' then
          match depth with
          | 0 => some cs
          | depth + 1 => skipToCloseAfter false depth cs
        else skipToCloseAfter (tag = '\'') depth cs
    else skipToCloseAfter false depth cs

/-- After the `%)` that closes the block whose `%(` has just been read. -/
def skipToClose (cs : List Char) : Except ErrorKind (List Char) :=
  match skipToCloseAfter false 0 cs with
  | some rest => .ok rest
  | none => .error .missingClose

/-- After the `%(` that opens the next block. -/
def expectOpen (cs : List Char) : Except ErrorKind (List Char) :=
  match skipLayout cs with
  | '%' :: '(' :: rest => .ok rest
  | [] => .error .unexpectedEnd
  | _ => .error .missingOpen

/-- The text of the next block without its brackets, and the rest after it. -/
def blockText (cs : List Char) : Except ErrorKind (String × List Char) := do
  let body ← expectOpen cs
  let rest ← skipToClose body
  return (String.ofList (body.take (body.length - rest.length - 2)), rest)

/-- The next character. -/
def next : List Char → Except ErrorKind (Char × List Char)
  | [] => .error .unexpectedEnd
  | c :: cs => .ok (c, cs)

/-- A number of `count` hexadecimal digits, after the value of the digits before. -/
def hexAfter (value : Nat) : Nat → List Char → Except ErrorKind (Nat × List Char)
  | 0, cs => .ok (value, cs)
  | _ + 1, [] => .error .unexpectedEnd
  | count + 1, c :: cs =>
    match Numeral.hexValue? c with
    | some d => hexAfter (16 * value + d) count cs
    | none => .error (.badHex c)

/-- A number of `count` hexadecimal digits. -/
def hex (count : Nat) (cs : List Char) : Except ErrorKind (Nat × List Char) := hexAfter 0 count cs

/-- The arguments of a routine up to the closing bracket, read inside quotes or not. A backslash in
quotes keeps the character after it from ending the quotes. -/
def argumentText (routine : String) (quoted : Bool) :
    List Char → Except ErrorKind (List Char × List Char)
  | [] => .error (.badArgument routine .unterminated)
  | c :: cs =>
    if quoted && c = '\\' then
      match cs with
      | [] => .error .unexpectedEnd
      | d :: cs =>
        (argumentText routine quoted cs).map fun (text, rest) => (c :: d :: text, rest)
    else if !quoted && c = ')' then .ok ([], cs)
    else
      (argumentText routine (quoted != (c = '"')) cs).map fun (text, rest) => (c :: text, rest)

/-- The name and the arguments of a routine call, and the rest after its closing bracket. -/
def call (cs : List Char) : Except ErrorKind (String × String × List Char) := do
  let cs := skipIndent cs
  let name := String.ofList (cs.takeWhile isWord)
  let (bracket, cs) ← next (skipIndent (cs.dropWhile isWord))
  if bracket ≠ '(' then throw (.badArgument name .missingOpen)
  let (arguments, rest) ← argumentText name false cs
  return (name, String.ofList arguments, rest)

end Source
end Script
end Disassembly
