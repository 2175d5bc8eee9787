/-
# Simple constructs

The constructs that neither hold blocks nor change the course of a script.

| construct | effect |
| --- | --- |
| `%%` | a percent sign |
| `%'` | a comment to the end of the line |
| `%Fbb` | number format; `FF` for the one at the start of the block |
| `%Bo`, `%Wo` | a byte or word as a number |
| `%Ao` | a word as an address, which counts as referenced |
| `%Co` | a byte as a character |
| `%Go` | a five-byte number |
| `%Xfs a b` | arithmetic into slot `s`; operation 0 has one operand |
| `%S`, `%E` | begin a line, end it |
| `%Q` | end the block after the bytes read, and end the line |
| `%T` | the separator of columns |
| `%;` | a comment directive |
| `%K a b` | a data block directive whose program is the block that follows |
-/

import Disassembly.Script.Operand

namespace Disassembly
namespace Script

/-- Read an operand and take its value at its own width. -/
def value (setting : Setting) (cs : List Char) : Action (UInt16 × List Char) := do
  let (o, cs) ← Action.ofExcept (Operand.read cs)
  return (← o.evaluate setting o.naturalWidth, cs)

/-- Write a number in the current format. -/
def pushNumber (setting : Setting) (n : Nat) (width : Width) (signed : Bool) : Action Unit :=
  modify fun c => c.pushText setting (Numeral.operand n width c.format.base signed)

/-- Read an operand of the given width and write it. -/
def number (setting : Setting) (width : Width) (cs : List Char) : Action (List Char) := do
  let (o, cs) ← Action.ofExcept (Operand.read cs)
  let n ← o.evaluate setting width
  pushNumber setting n.toNat width (← get).format.signed
  return cs

/-- Read a word, record it as a reference and write it. -/
def address (setting : Setting) (cs : List Char) : Action (List Char) := do
  let (o, cs) ← Action.ofExcept (Operand.read cs)
  let n ← o.evaluate setting .word
  modify (·.recordReference n)
  pushNumber setting n.toNat .word false
  return cs

/-- Read a byte and write it as a character; user-defined graphics and control codes are written as
numbers. -/
def character (setting : Setting) (cs : List Char) : Action (List Char) := do
  let (o, cs) ← Action.ofExcept (Operand.read cs)
  let code := (← o.evaluate setting .byte).toUInt8
  match setting.charset.glyph code with
  | .printable c | .graphic c => modify (·.pushChar setting c)
  | .command keyword => modify (·.pushText setting keyword)
  | .userDefined _ | .control _ => pushNumber setting code.toNat .byte false
  return cs

/-- Read a number format. -/
def numberFormat (setting : Setting) (cs : List Char) : Action (List Char) := do
  let (bits, cs) ← Action.ofExcept (Source.hex 2 cs)
  let format := if bits = 0xFF then .ofScope setting.scope else .ofByte (UInt8.ofNat bits)
  modify fun c => { c with format }
  return cs

/-- The result of an operation on two values, modulo 65536; none for a division by zero. -/
def arithmeticResult? (operation : Nat) (a b : UInt16) : Option UInt16 :=
  match operation with
  | 1 => some (a + b)
  | 2 => some (a - b)
  | 3 => some (a * b)
  | 4 => if b = 0 then none else some (a / b)
  | 5 => if b = 0 then none else some (a % b)
  | 6 => some (a &&& b)
  | 7 => some (a ||| b)
  | _ => some (a ^^^ b)

/-- Read an operation, a slot and one or two operands, and put the result into the slot. -/
def arithmetic (setting : Setting) (cs : List Char) : Action (List Char) := do
  let (operation, cs) ← Action.ofExcept (Source.hex 1 cs)
  let (slot, cs) ← Action.ofExcept (Source.hex 1 cs)
  if 8 < operation then throw (.unknownOperation operation)
  let (a, cs) ← value setting cs
  if operation = 0 then
    Action.assign (UInt8.ofNat slot) a
    return cs
  else
    let (b, cs) ← value setting cs
    match arithmeticResult? operation a b with
    | some result => Action.assign (UInt8.ofNat slot) result
    | none => throw .divisionByZero
    return cs

/-- What a comment looks at: nothing, an operand value, or an index displacement. -/
inductive CommentKind
  | plain
  | reference (matching : ReferenceMatch)
  | displacement (matching : DisplacementMatch)

/-- The kind of comment with the given letter. -/
def CommentKind.ofLetter? : Char → Option CommentKind
  | 'C' => some plain
  | 'A' => some (reference .address)
  | 'N' => some (reference .number)
  | 'B' => some (reference .both)
  | 'X' => some (displacement .ix)
  | 'Y' => some (displacement .iy)
  | 'D' => some (displacement .both)
  | _ => none

/-- The text of a comment: the line under construction, which is given up, or the rest of the
script's line. -/
def commentText (source : Char) (cs : List Char) : Action (String × List Char) := do
  match source with
  | 'L' =>
    let text := (← get).lineText
    modify Context.dropLine
    return (text, cs)
  | 'R' =>
    return (String.ofList (Text.trimStart (cs.takeWhile fun c => !Source.isBreak c)),
      Source.skipLine cs)
  | other => throw (.unknownCommentKind other)

/-- Read the source of the text, the position, the kind, the range and the value of a comment, and
add it to the directives. -/
def comment (setting : Setting) (cs : List Char) : Action (List Char) := do
  let (source, cs) ← Action.ofExcept (Source.next cs)
  let (letter, cs) ← Action.ofExcept (Source.next cs)
  let position ← match Position.ofLetter? letter with
    | some position => pure position
    | none => throw (.unknownCommentKind letter)
  let (kindLetter, cs) ← Action.ofExcept (Source.next cs)
  let (first, cs) ← value setting cs
  let (last, cs) ← value setting cs
  match CommentKind.ofLetter? kindLetter with
  | none => throw (.unknownCommentKind kindLetter)
  | some .plain =>
    let (text, cs) ← commentText source cs
    modify (·.insertDirective ⟨first, last, .comment position text⟩)
    return cs
  | some (.reference matching) =>
    let (n, cs) ← value setting cs
    let (text, cs) ← commentText source cs
    modify (·.insertDirective ⟨first, last, .reference position matching n text⟩)
    return cs
  | some (.displacement matching) =>
    let (n, cs) ← value setting cs
    let (text, cs) ← commentText source cs
    modify (·.insertDirective ⟨first, last, .displacement position matching n.toUInt8.toInt8 text⟩)
    return cs

/-- Read a range and a block, and add a data block directive. -/
def dataBlock (setting : Setting) (cs : List Char) : Action (List Char) := do
  let (first, cs) ← value setting cs
  let (last, cs) ← value setting cs
  let (program, cs) ← Action.ofExcept (Source.blockText cs)
  modify (·.insertDirective ⟨first, last, .dataBlock program⟩)
  return cs

/-- Run the simple construct with the given tag. -/
def simple (setting : Setting) (tag : Char) (cs : List Char) : Action (List Char) := do
  match tag with
  | '%' => modify (·.pushChar setting '%'); return cs
  | '\'' => return Source.skipLine cs
  | 'F' => numberFormat setting cs
  | 'B' => number setting .byte cs
  | 'W' => number setting .word cs
  | 'A' => address setting cs
  | 'C' => character setting cs
  | 'G' =>
    let (o, cs) ← Action.ofExcept (Operand.read cs)
    let text ← o.float setting
    modify (·.pushText setting text)
    return cs
  | 'X' => arithmetic setting cs
  | 'S' => modify (·.startLine setting); return cs
  | 'E' => modify (·.endLine setting); return cs
  | 'Q' => modify (·.shrink setting); return cs
  | 'T' => modify (·.pushSeparator setting); return cs
  | ';' => comment setting cs
  | 'K' => dataBlock setting cs
  | other => throw (.unknownTag other)

end Script
end Disassembly
