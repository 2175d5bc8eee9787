/-
# Stored directives

A directive is stored as one line `code#first#last#newlines#payload`. The code and the two addresses
are four hexadecimal digits. Line feeds are taken out of the payload, and the field `newlines` lists
where they were, as byte offsets into the payload without them. What the payload holds depends on
the kind:

| code | annotation | payload |
| --- | --- | --- |
| `0109` | separator | the separator |
| `01FF` | whole scope | packed scope in eight digits, then the separator |
| `01oo` | other format | value in two digits |
| `0200`, `0300` | data, pattern | the program |
| `040p` | comment | the text |
| `041p`, `042p`, `043p` | reference | value in four digits, then the text |
| `044p`, `045p`, `046p` | displacement | displacement in two digits, then the text |

A file holds one directive a line; empty lines and lines that start with `;` are skipped.
-/

import Disassembly.Directive.Basic
import Disassembly.Numeral.Read
import Disassembly.Text.Offset
import Disassembly.Text.Quoted

namespace Disassembly
namespace Directive

/-- The mode digit of a reference comment. -/
def referenceMode : ReferenceMatch → Nat
  | .address => 1
  | .number => 2
  | .both => 3

/-- The mode digit of a displacement comment. -/
def displacementMode : DisplacementMatch → Nat
  | .ix => 4
  | .iy => 5
  | .both => 6

/-- The code of a directive. -/
def code (d : Directive) : Nat :=
  match d.annotation with
  | .format change => 0x0100 + change.option.toNat
  | .dataBlock _ => 0x0200
  | .patternBlock _ => 0x0300
  | .comment position _ => 0x0400 + position.code
  | .reference position matching _ _ => 0x0400 + 16 * referenceMode matching + position.code
  | .displacement position matching _ _ =>
    0x0400 + 16 * displacementMode matching + position.code

/-- The payload of a directive, line feeds included. -/
def payload (d : Directive) : String :=
  match d.annotation with
  | .format (.separator text) => text
  | .format (.custom scope) => Numeral.fixed .hex 8 scope.pack ++ scope.separator
  | .format change => Numeral.fixed .hex 2 (change.byte?.getD 0).toNat
  | .dataBlock program => program
  | .patternBlock program => program
  | .comment _ text => text
  | .reference _ _ value text => Numeral.fixed .hex 4 value.toNat ++ text
  | .displacement _ _ displacement text =>
    Numeral.fixed .hex 2 displacement.toUInt8.toNat ++ text

/-- Where the line feeds are: for each the number of bytes before it, `position` of them before the
text, that are not line feeds. -/
def newlineOffsets (position : Nat) : List Char → List Nat
  | [] => []
  | c :: cs =>
    if c = '\n' then position :: newlineOffsets position cs
    else newlineOffsets (position + c.utf8Size) cs

/-- The stored form of a directive. -/
def store (d : Directive) : String :=
  let payload := d.payload.toList
  Numeral.fixed .hex 4 d.code ++ "#" ++ Numeral.hexWord d.first ++ "#" ++
    Numeral.hexWord d.last ++ "#" ++
    String.intercalate "," ((newlineOffsets 0 payload).map Numeral.decimal) ++ "#" ++
    String.ofList (payload.filter (· ≠ '\n'))

/-- A field of four hexadecimal digits. -/
inductive Field
  | code
  | first
  | last

/-- The name of a field. -/
def Field.name : Field → String
  | code => "code"
  | first => "start"
  | last => "end"

/-- Why a line is not the stored form of a directive. -/
inductive Flaw
  | fieldCount
  | fieldWidth (field : Field)
  | fieldDigit (field : Field)
  | newlineNumber
  | newlineOutside
  | newlineOrder
  | backwards
  | payloadShort
  | payloadDigit
  | payloadLong
  | unknownOption
  | unknownPosition
  | unknownComment
  | unknownCode

/-- The reason in words. -/
def Flaw.message : Flaw → String
  | fieldCount => "expected five '#' separated fields"
  | fieldWidth field => field.name ++ " must be four hex digits"
  | fieldDigit field => "bad hex digit in " ++ field.name
  | newlineNumber => "bad newline offset"
  | newlineOutside => "newline offset outside payload"
  | newlineOrder => "newline offsets out of order"
  | backwards => "range ends before it starts"
  | payloadShort => "payload too short"
  | payloadDigit => "bad hex digit in payload"
  | payloadLong => "trailing text after option value"
  | unknownOption => "unknown format option"
  | unknownPosition => "unknown comment position"
  | unknownComment => "unknown comment kind"
  | unknownCode => "unknown directive code"

/-- A line that is not the stored form of a directive. -/
structure Malformed where
  text : String
  flaw : Flaw

/-- The message for a line that cannot be read. -/
def Malformed.message (m : Malformed) : String :=
  "Malformed directive " ++ Text.quote m.text ++ ": " ++ m.flaw.message

/-- A field of four hexadecimal digits. Its width is counted in bytes. -/
def readField (field : Field) (cs : List Char) : Except Flaw Nat :=
  if Text.byteLength cs ≠ 4 then .error (.fieldWidth field)
  else match Numeral.readHex? cs with
    | some n => .ok n
    | none => .error (.fieldDigit field)

/-- The offsets in the field of line feeds, each in the payload and none before `least`. -/
def readOffsets (payload : List Char) (least : Nat) : List (List Char) → Except Flaw (List Nat)
  | [] => .ok []
  | item :: items =>
    match Numeral.readCount? 0xFFFFFFFFFFFFFFFF (Text.trim item) with
    | none => .error .newlineNumber
    | some n =>
      if (Text.splitAtByte? n payload).isNone then .error .newlineOutside
      else if n < least then .error .newlineOrder
      else (readOffsets payload n items).map (n :: ·)

/-- The payload with line feeds put in at the offsets, `position` bytes of it gone already. -/
def insertNewlines (position : Nat) : List Nat → List Char → List Char
  | [], cs => cs
  | n :: ns, cs =>
    match Text.splitAtByte? (n - position) cs with
    | some (piece, rest) => piece ++ '\n' :: insertNewlines n ns rest
    | none => cs

/-- The payload with its line feeds. -/
def readPayload (newlines payload : List Char) : Except Flaw (List Char) :=
  if newlines = [] then .ok payload
  else (readOffsets payload 0 (Text.splitOn ',' newlines)).map fun offsets =>
    insertNewlines 0 offsets payload

/-- The number in the first `count` bytes of a payload, and the rest. -/
def readLeading (count : Nat) (payload : List Char) : Except Flaw (Nat × List Char) :=
  match Text.splitAtByte? count payload with
  | none => .error .payloadShort
  | some (digits, rest) =>
    match Numeral.readHex? digits with
    | some n => .ok (n, rest)
    | none => .error .payloadDigit

/-- The format change with the given option number. -/
def readFormat (option : Nat) (payload : List Char) : Except Flaw Scope.Change :=
  if option = 0x09 then .ok (.separator (String.ofList payload))
  else if option = 0xFF then
    (readLeading 8 payload).map fun (packed, separator) =>
      .custom (.unpack packed (String.ofList separator))
  else do
    let (value, rest) ← readLeading 2 payload
    if rest ≠ [] then throw .payloadLong
    match Scope.Change.ofOption? (UInt8.ofNat option) (UInt8.ofNat value) with
    | some change => return change
    | none => throw .unknownOption

/-- The comment with the given mode digit. -/
def readComment (mode : Nat) (position : Position) (payload : List Char) :
    Except Flaw Annotation :=
  let reference (matching : ReferenceMatch) : Except Flaw Annotation :=
    (readLeading 4 payload).map fun (value, text) =>
      .reference position matching (UInt16.ofNat value) (String.ofList text)
  let displacement (matching : DisplacementMatch) : Except Flaw Annotation :=
    (readLeading 2 payload).map fun (value, text) =>
      .displacement position matching (UInt8.ofNat value).toInt8 (String.ofList text)
  match mode with
  | 0 => .ok (.comment position (String.ofList payload))
  | 1 => reference .address
  | 2 => reference .number
  | 3 => reference .both
  | 4 => displacement .ix
  | 5 => displacement .iy
  | 6 => displacement .both
  | _ => .error .unknownComment

/-- The annotation with the given code. -/
def readAnnotation (code : Nat) (payload : List Char) : Except Flaw Annotation :=
  let low := code % 0x100
  match code / 0x100 with
  | 1 => (readFormat low payload).map .format
  | 2 => if low = 0 then .ok (.dataBlock (String.ofList payload)) else .error .unknownCode
  | 3 => if low = 0 then .ok (.patternBlock (String.ofList payload)) else .error .unknownCode
  | 4 =>
    match Position.ofCode? (low % 16) with
    | some position => readComment (low / 16) position payload
    | none => .error .unknownPosition
  | _ => .error .unknownCode

/-- The directive stored in a line, or what is wrong with the line. -/
def read (line : List Char) : Except Flaw Directive :=
  match Text.splitOnUpTo '#' 4 line with
  | [code, first, last, newlines, payload] => do
    let code ← readField .code code
    let first ← readField .first first
    let last ← readField .last last
    let payload ← readPayload newlines payload
    if last < first then throw .backwards
    let annotation ← readAnnotation code payload
    return ⟨UInt16.ofNat first, UInt16.ofNat last, annotation⟩
  | _ => .error .fieldCount

/-- The directive stored in a line. -/
def parse (line : String) : Except Malformed Directive :=
  match read line.toList with
  | .ok d => .ok d
  | .error flaw => .error ⟨line, flaw⟩

/-- The lines of a file that hold directives, without carriage returns at their ends. -/
def fileLines (text : String) : List String :=
  ((Text.splitOn '\n' text.toList).map (Text.dropEndWhile (· = '\r'))).filter
    (fun line => Text.trim line ≠ [] && line.head? ≠ some ';') |>.map String.ofList

/-- The directives in a file, or the first line that cannot be read. -/
def parseFile (text : String) : Except Malformed (List Directive) :=
  (fileLines text).mapM parse

end Directive
end Disassembly
