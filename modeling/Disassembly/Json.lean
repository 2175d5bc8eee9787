/-
# Reading JSON by type

Project files are read in one pass, by the type that is expected at each place, and the first error
wins. There are two kinds of error: the text ends too soon, or something in it is wrong. A value of
another type than the expected one is read as far as it is a single token, so that a token cut off
by the end of the text counts as an early end.

A record is an object or, with its fields in order, an array. Fields of an object that a record does
not know are skipped by their syntax alone, and a field it knows must not come twice.
-/

namespace Disassembly
namespace Json

/-- Why a text cannot be read. -/
inductive Error
  /-- The text ends too soon. -/
  | endOfText
  /-- The text is not JSON, or not of the expected type. -/
  | invalid
  deriving DecidableEq

/-- A reader takes a value from the front of a text. -/
abbrev Reader := StateT (List UInt8) (Except Error)

/-- The byte of an ASCII character. -/
def byte (c : Char) : UInt8 := UInt8.ofNat c.toNat

/-- Whether the byte may stand between tokens. -/
def isSpace (b : UInt8) : Bool := b = 0x20 || b = 0x0A || b = 0x0D || b = 0x09

/-- Whether the byte is a decimal digit. -/
def isDigit (b : UInt8) : Bool := 0x30 ≤ b && b ≤ 0x39

/-- The text from the next token on. -/
def skipSpace (bs : List UInt8) : List UInt8 := bs.dropWhile isSpace

/-- The first byte of the next token, which stays in the text. -/
def peek : Reader (Option UInt8) := do
  modify skipSpace
  return (← get).head?

/-- The first byte of the next token, which must be there and stays in the text. -/
def peekSome : Reader UInt8 := do
  match ← peek with
  | some b => return b
  | none => throw .endOfText

/-- Drop the next byte. -/
def drop : Reader Unit := modify List.tail

/-- The bytes of a word. -/
def wordAfter : List Char → Reader Unit
  | [] => return ()
  | c :: cs => do
    match ← get with
    | [] => throw .endOfText
    | b :: rest => if b = byte c then set rest; wordAfter cs else throw .invalid

/-- The value of a hexadecimal digit. -/
def hexDigit? (b : UInt8) : Option Nat :=
  if 0x30 ≤ b ∧ b ≤ 0x39 then some (b.toNat - 0x30)
  else if 0x61 ≤ b ∧ b ≤ 0x66 then some (b.toNat - 0x61 + 10)
  else if 0x41 ≤ b ∧ b ≤ 0x46 then some (b.toNat - 0x41 + 10)
  else none

/-- Four hexadecimal digits. -/
def hexFour : List UInt8 → Except Error (Nat × List UInt8)
  | a :: b :: c :: d :: rest =>
    match hexDigit? a, hexDigit? b, hexDigit? c, hexDigit? d with
    | some a, some b, some c, some d => .ok (((a * 16 + b) * 16 + c) * 16 + d, rest)
    | _, _, _, _ => .error .invalid
  | _ => .error .endOfText

/-- Whether the number is the first half of a surrogate pair. -/
def isHighSurrogate (n : Nat) : Bool := 0xD800 ≤ n && n ≤ 0xDBFF

/-- Whether the number is the second half of a surrogate pair. -/
def isLowSurrogate (n : Nat) : Bool := 0xDC00 ≤ n && n ≤ 0xDFFF

/-- The second half of a surrogate pair. -/
def lowSurrogate : List UInt8 → Except Error (Nat × List UInt8)
  | [] => .error .endOfText
  | a :: rest =>
    if a ≠ byte '\\' then .error .invalid
    else match rest with
      | [] => .error .endOfText
      | b :: rest => if b = byte 'u' then hexFour rest else .error .invalid

/-- A character given by its code. -/
def codeEscape (bs : List UInt8) : Except Error (List UInt8 × List UInt8) := do
  let (n, rest) ← hexFour bs
  if isLowSurrogate n then throw .invalid
  else if isHighSurrogate n then
    let (low, rest) ← lowSurrogate rest
    if isLowSurrogate low then
      let code := 0x10000 + (n - 0xD800) * 0x400 + (low - 0xDC00)
      return (String.utf8EncodeChar (Char.ofNat code), rest)
    else throw .invalid
  else return (String.utf8EncodeChar (Char.ofNat n), rest)

/-- The byte that a letter after a backslash stands for. -/
def simpleEscape? (b : UInt8) : Option UInt8 :=
  if b = byte '"' ∨ b = byte '\\' ∨ b = byte '/' then some b
  else if b = byte 'b' then some 0x08
  else if b = byte 'f' then some 0x0C
  else if b = byte 'n' then some 0x0A
  else if b = byte 'r' then some 0x0D
  else if b = byte 't' then some 0x09
  else none

/-- What stands after a backslash. When skipping, a code needs its digits only. -/
def escape (skipping : Bool) : List UInt8 → Except Error (List UInt8 × List UInt8)
  | [] => .error .endOfText
  | b :: rest =>
    if b = byte 'u' then
      if skipping then (hexFour rest).map fun (_, rest) => ([], rest) else codeEscape rest
    else match simpleEscape? b with
      | some c => .ok ([c], rest)
      | none => .error .invalid

/-- The bytes of a string up to its closing quote, and the rest. The first argument bounds the number
of characters. -/
def stringBody (skipping : Bool) : Nat → List UInt8 → Except Error (List UInt8 × List UInt8)
  | 0, _ => .error .endOfText
  | _ + 1, [] => .error .endOfText
  | count + 1, b :: rest =>
    if b = byte '"' then .ok ([], rest)
    else if b = byte '\\' then do
      let (bytes, rest) ← escape skipping rest
      let (more, rest) ← stringBody skipping count rest
      return (bytes ++ more, rest)
    else if b < 0x20 then .error .invalid
    else (stringBody skipping count rest).map fun (more, rest) => (b :: more, rest)

/-- A string whose opening quote has been read. -/
def stringAfterQuote : Reader String := do
  let bs ← get
  let (bytes, rest) ← stringBody false bs.length bs
  set rest
  match String.fromUTF8? (ByteArray.mk bytes.toArray) with
  | some s => return s
  | none => throw .invalid

/-- The digits at the front of a text as a number after `value`, and the rest. -/
def digitsAfter (value : Nat) : List UInt8 → Nat × List UInt8
  | [] => (value, [])
  | b :: rest =>
    if isDigit b then digitsAfter (10 * value + (b.toNat - 0x30)) rest else (value, b :: rest)

/-- At least one digit; `atEnd` is the error if the text ends before. -/
def someDigits (atEnd : Error) : List UInt8 → Except Error (List UInt8)
  | [] => .error atEnd
  | b :: rest => if isDigit b then .ok (rest.dropWhile isDigit) else .error .invalid

/-- The exponent of a number, if there is one. -/
def exponent (atEnd : Error) (bs : List UInt8) : Except Error (List UInt8) :=
  match bs with
  | e :: rest =>
    if e = byte 'e' ∨ e = byte 'E' then
      match rest with
      | sign :: digits =>
        if sign = byte '+' ∨ sign = byte '-' then someDigits atEnd digits else someDigits atEnd rest
      | [] => .error atEnd
    else .ok bs
  | [] => .ok bs

/-- The fraction and the exponent of a number, if there are any. -/
def fraction (atEnd : Error) (bs : List UInt8) : Except Error (List UInt8) :=
  match bs with
  | point :: rest =>
    if point = byte '.' then do exponent atEnd (← someDigits atEnd rest) else exponent atEnd bs
  | [] => .ok bs

/-- A number without its sign: its value if it is written as an integer, and the rest. -/
def number (atEnd : Error) : List UInt8 → Except Error (Option Nat × List UInt8)
  | [] => .error atEnd
  | b :: rest =>
    if !isDigit b then .error .invalid
    else if b = byte '0' ∧ rest.head?.any isDigit then .error .invalid
    else
      let (value, rest) := digitsAfter 0 (b :: rest)
      (fraction atEnd rest).map fun rest' =>
        (if rest'.length = rest.length then some value else none, rest')

/-- A value of another type than the expected one. -/
def wrongType {α : Type} : Reader α := do
  let b ← peekSome
  if b = byte 'n' then wordAfter ['n', 'u', 'l', 'l']
  else if b = byte 't' then wordAfter ['t', 'r', 'u', 'e']
  else if b = byte 'f' then wordAfter ['f', 'a', 'l', 's', 'e']
  else if b = byte '"' then
    drop
    discard stringAfterQuote
  else if b = byte '-' then discard (StateT.lift (number .endOfText (← get).tail))
  else if isDigit b then discard (StateT.lift (number .endOfText (← get)))
  throw .invalid

/-- A string. -/
def string : Reader String := do
  if (← peekSome) = byte '"' then
    drop
    stringAfterQuote
  else wrongType

/-- A truth value. -/
def bool : Reader Bool := do
  let b ← peekSome
  if b = byte 't' then
    wordAfter ['t', 'r', 'u', 'e']
    return true
  else if b = byte 'f' then
    wordAfter ['f', 'a', 'l', 's', 'e']
    return false
  else wrongType

/-- An integer from zero to `max`. -/
def unsigned (max : Nat) : Reader Nat := do
  if isDigit (← peekSome) then
    let (value, rest) ← StateT.lift (number .endOfText (← get))
    set rest
    match value with
    | some n => if n ≤ max then return n else throw .invalid
    | none => throw .invalid
  else wrongType

/-- A value, or `null` for none. -/
def optional {α : Type} (value : Reader α) : Reader (Option α) := do
  if (← peek) = some (byte 'n') then
    wordAfter ['n', 'u', 'l', 'l']
    return none
  else return some (← value)

/-- A string that names something. -/
def named {α : Type} (ofName? : String → Option α) : Reader α := do
  match ofName? (← string) with
  | some a => return a
  | none => throw .invalid

/-- Whether another element of an array follows, with the comma before it read. -/
def hasElement (first : Bool) : Reader Bool := do
  let b ← peekSome
  if b = byte ']' then return false
  else if first then return true
  else if b = byte ',' then
    drop
    if (← peekSome) = byte ']' then throw .invalid else return true
  else throw .invalid

/-- Whether another member of an object follows, with the comma before it and the quote of its name
read. -/
def hasMember (first : Bool) : Reader Bool := do
  let b ← peekSome
  if b = byte '\x7d' then return false
  else
    if !first then
      if b = byte ',' then drop else throw .invalid
    if (← peekSome) = byte '"' then
      drop
      return true
    else throw .invalid

/-- The colon after the name of a member. -/
def colon : Reader Unit := do
  if (← peekSome) = byte ':' then drop else throw .invalid

/-- What closes an array. -/
def closeArray : Reader Unit := do
  if (← peekSome) = byte ']' then drop else throw .invalid

/-- The elements of an array up to its end. The first argument bounds their number. -/
def elements {α : Type} (value : Reader α) : Nat → Bool → Reader (List α)
  | 0, _ => throw .endOfText
  | count + 1, first => do
    if ← hasElement first then
      let a ← value
      return a :: (← elements value count false)
    else
      drop
      return []

/-- An array. -/
def list {α : Type} (value : Reader α) : Reader (List α) := do
  if (← peekSome) = byte '[' then
    drop
    elements value ((← get).length + 1) true
  else wrongType

/-- The members of an object up to its end. The first argument bounds their number. -/
def members {α : Type} (value : Reader α) : Nat → Bool → Reader (List (String × α))
  | 0, _ => throw .endOfText
  | count + 1, first => do
    if ← hasMember first then
      let name ← stringAfterQuote
      colon
      let a ← value
      return (name, a) :: (← members value count false)
    else
      drop
      return []

/-- An object with members of one type. -/
def object {α : Type} (value : Reader α) : Reader (List (String × α)) := do
  if (← peekSome) = byte '\x7b' then
    drop
    members value ((← get).length + 1) true
  else wrongType

/-- An array or an object that is being skipped. -/
inductive Frame
  | array
  | object
  deriving DecidableEq

/-- What closes a frame. -/
def Frame.closing : Frame → UInt8
  | array => byte ']'
  | object => byte '\x7d'

/-- What comes next when skipping. -/
inductive Place
  /-- A value. -/
  | value
  /-- The first member of a frame, or its end. -/
  | first
  /-- A comma, or the end of a frame. -/
  | more

/-- Skip a string whose opening quote has been read. -/
def skipString : Reader Unit := do
  let bs ← get
  let (_, rest) ← stringBody true bs.length bs
  set rest

/-- Skip the name of a member and the colon, in an object. -/
def skipName (frame : Frame) : Reader Unit := do
  if frame = .object then
    if (← peekSome) = byte '"' then
      drop
      skipString
      colon
    else throw .invalid

/-- Skip a value without frames, or open a frame. -/
def skipToken : Reader (Option Frame) := do
  let b ← peekSome
  if b = byte '[' then
    drop
    return some .array
  else if b = byte '\x7b' then
    drop
    return some .object
  else
    if b = byte 'n' then wordAfter ['n', 'u', 'l', 'l']
    else if b = byte 't' then wordAfter ['t', 'r', 'u', 'e']
    else if b = byte 'f' then wordAfter ['f', 'a', 'l', 's', 'e']
    else if b = byte '"' then
      drop
      skipString
    else if b = byte '-' ∨ isDigit b then
      if b = byte '-' then drop
      let (_, rest) ← StateT.lift (number .invalid (← get))
      set rest
    else throw .invalid
    return none

/-- Skip up to the end of the outermost frame. The first argument bounds the number of steps. -/
def skipFrames : Nat → Place → List Frame → Reader Unit
  | 0, _, _ => throw .endOfText
  | steps + 1, .value, frames => do
    match ← skipToken with
    | some frame => skipFrames steps .first (frame :: frames)
    | none => skipFrames steps .more frames
  | _ + 1, _, [] => return ()
  | steps + 1, .first, frame :: frames => do
    if (← peekSome) = frame.closing then
      drop
      skipFrames steps .more frames
    else
      skipName frame
      skipFrames steps .value (frame :: frames)
  | steps + 1, .more, frame :: frames => do
    let b ← peekSome
    if b = frame.closing then
      drop
      skipFrames steps .more frames
    else if b = byte ',' then
      drop
      skipName frame
      skipFrames steps .value (frame :: frames)
    else throw .invalid

/-- Skip any value. -/
def skipValue : Reader Unit := do
  skipFrames (3 * (← get).length + 3) .value []

/-- A field of a record. -/
structure Field (σ : Type) where
  name : String
  /-- Read the field into a record. -/
  read : σ → Reader σ
  /-- Whether an object must have the field. -/
  required : Bool := false
  /-- Whether an array must have the field. -/
  requiredInArray : Bool := false

/-- The fields of a record given as an object. The first argument bounds their number. -/
def objectFields {σ : Type} (fields : List (Field σ)) : Nat → Bool → List String → σ → Reader σ
  | 0, _, _, _ => throw .endOfText
  | count + 1, first, seen, record => do
    if ← hasMember first then
      let name ← stringAfterQuote
      match fields.find? fun field => field.name = name with
      | some field =>
        if name ∈ seen then throw .invalid
        colon
        objectFields fields count false (name :: seen) (← field.read record)
      | none =>
        colon
        skipValue
        objectFields fields count false seen record
    else
      drop
      if fields.all fun field => !field.required || field.name ∈ seen then return record
      else throw .invalid

/-- The fields of a record given as an array. -/
def arrayFields {σ : Type} : List (Field σ) → Bool → σ → Reader σ
  | [], _, record => return record
  | field :: fields, first, record => do
    if ← hasElement first then arrayFields fields false (← field.read record)
    else if field.requiredInArray then throw .invalid
    else arrayFields fields first record

/-- A record. -/
def record {σ : Type} (fields : List (Field σ)) (init : σ) : Reader σ := do
  let b ← peekSome
  if b = byte '\x7b' then
    drop
    objectFields fields ((← get).length + 1) true [] init
  else if b = byte '[' then
    drop
    let record ← arrayFields fields true init
    closeArray
    return record
  else wrongType

/-- A whole text, with nothing after the value. -/
def run {α : Type} (value : Reader α) (text : List UInt8) : Except Error α := do
  let (a, rest) ← value text
  if skipSpace rest = [] then return a else throw .invalid

end Json
end Disassembly
