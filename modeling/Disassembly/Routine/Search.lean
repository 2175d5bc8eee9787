/-
# Searches and ranges

`FindBytes` looks for a byte pattern at the current address and may comment on it. `OffsetRange` puts
two addresses near the current one into slots.
-/

import Disassembly.Routine.Argument
import Disassembly.Script.Context

namespace Disassembly
namespace Routine

open Script

/-- Pairs of hexadecimal digits as bytes, with `??` for any byte. -/
def readPairs : List Char → Except ArgumentFlaw (List (Option UInt8))
  | [] => .ok []
  | [_] => .error .oddPattern
  | high :: low :: rest =>
    if high = '?' ∧ low = '?' then (readPairs rest).map (none :: ·)
    else match Numeral.hexValue? high, Numeral.hexValue? low with
      | some h, some l => (readPairs rest).map (some (UInt8.ofNat (16 * h + l)) :: ·)
      | _, _ => .error .patternDigit

/-- A byte pattern: pairs of digits, at least one, with blanks anywhere. -/
def readPattern (text : String) : Except ArgumentFlaw (List (Option UInt8)) :=
  let digits := text.toList.filter fun c => !Text.isBlank c
  if digits = [] ∨ digits.length % 2 = 1 then .error .oddPattern else readPairs digits

/-- Whether the image has the bytes of a pattern from an address on. Bytes outside the image never
match. -/
def matchesAt (image : Image) : Nat → List (Option UInt8) → Bool
  | _, [] => true
  | address, expected :: rest =>
    match image.byte? address, expected with
    | none, _ => false
    | some actual, some b => actual = b && matchesAt image (address + 1) rest
    | some _, none => matchesAt image (address + 1) rest

/-- Look for bytes at the current address: `FindBytes(bytes, comment, position="E")`. If they are
there and a comment is given, it is put on them. -/
def findBytes (setting : Setting) (a : Arguments) : Action Bool := do
  let text ← Action.ofExcept (a.string "bytes" 0 "")
  let pattern ← match readPattern text with
    | .ok pattern => pure pattern
    | .error flaw => Action.ofExcept (a.error flaw)
  let comment ← Action.ofExcept (a.string? "comment" 1)
  let letter ← Action.ofExcept (a.string "position" 2 "E")
  let position ← match letter.toList.head?.bind Position.ofLetter? with
    | some position => pure position
    | none => Action.ofExcept (a.error .badPosition)
  let c ← get
  let found := matchesAt setting.image c.position pattern
  match found, comment with
  | true, some text =>
    let first := c.currentAddress
    let last := first + UInt16.ofNat (pattern.length - 1)
    modify (·.insertDirective ⟨first, last, .comment position text⟩)
  | _, _ => pure ()
  return found

/-- Put two addresses, given by their distances from the current one, into slots:
`OffsetRange(start=0, end=0, into_start=0, into_end=1)`. -/
def offsetRange (a : Arguments) : Action Bool := do
  let first ← Action.ofExcept (a.int "start" 0 0)
  let last ← Action.ofExcept (a.int "end" 1 0)
  let intoFirst ← Action.ofExcept (a.count "into_start" 2 0 9)
  let intoLast ← Action.ofExcept (a.count "into_end" 3 1 9)
  let here : Int := (← get).currentAddress.toNat
  Action.assign (UInt8.ofNat intoFirst) (UInt16.ofInt (here + first))
  Action.assign (UInt8.ofNat intoLast) (UInt16.ofInt (here + last))
  return true

end Routine
end Disassembly
