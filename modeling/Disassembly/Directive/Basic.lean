/-
# Directives

A directive annotates an inclusive range of addresses: it changes formatting, renders the range as
data, searches it for a pattern, or comments on lines in it. Directives are ordered by range, and
directives with equal ranges keep the order in which they came.
-/

import Disassembly.Scope.Change
import Disassembly.Z80.Decode

namespace Disassembly

/-- Where a comment stands. -/
inductive Position
  /-- On a line of its own before the line. -/
  | before
  /-- At the end of the line. -/
  | endOfLine
  /-- On a line of its own after the line. -/
  | after
  deriving DecidableEq

namespace Position

/-- The code of the position. -/
def code : Position → Nat
  | before => 0
  | endOfLine => 1
  | after => 2

/-- The position with a code. -/
def ofCode? : Nat → Option Position
  | 0 => some before
  | 1 => some endOfLine
  | 2 => some after
  | _ => none

/-- The position with a letter, in either case. -/
def ofLetter? (letter : Char) : Option Position :=
  match letter.toUpper with
  | 'B' => some before
  | 'E' => some endOfLine
  | 'A' => some after
  | _ => none

/-- The position as it is named in explanations. -/
def title : Position → String
  | before => "Before"
  | endOfLine => "EndOfLine"
  | after => "After"

end Position

/-- Which operands a reference comment looks at. -/
inductive ReferenceMatch
  | address
  | number
  | both
  deriving DecidableEq

namespace ReferenceMatch

/-- The value of an operand of the right kind. -/
def value? : ReferenceMatch → Z80.Operand → Option UInt16
  | address, .address a => some a
  | number, .number n => some n
  | both, .address a => some a
  | both, .number n => some n
  | _, _ => none

/-- The kind of operand as it is named in explanations. -/
def title : ReferenceMatch → String
  | address => "Address"
  | number => "Number"
  | both => "Both"

end ReferenceMatch

/-- Which index register a displacement comment looks at. -/
inductive DisplacementMatch
  | ix
  | iy
  | both
  deriving DecidableEq

namespace DisplacementMatch

/-- The displacement of an operand on the right register. -/
def value? : DisplacementMatch → Z80.Operand → Option Int8
  | ix, .displacement .ix d => some d
  | iy, .displacement .iy d => some d
  | both, .displacement _ d => some d
  | _, _ => none

/-- The register as it is named in explanations. -/
def title : DisplacementMatch → String
  | ix => "IX"
  | iy => "IY"
  | both => "Both"

end DisplacementMatch

/-- What a directive does with its range. -/
inductive Annotation
  /-- Change formatting. -/
  | format (change : Scope.Change)
  /-- Render the range with a script instead of decoding it. -/
  | dataBlock (program : String)
  /-- Run a script at every address of the range, without consuming it. -/
  | patternBlock (program : String)
  /-- Comment on the first line. -/
  | comment (position : Position) (text : String)
  /-- Comment on every instruction with an address or word equal to `value`. -/
  | reference (position : Position) (matching : ReferenceMatch) (value : UInt16) (text : String)
  /-- Comment on every instruction with an index displacement equal to `d`. -/
  | displacement (position : Position) (matching : DisplacementMatch) (d : Int8) (text : String)
  deriving DecidableEq

/-- An annotation of the addresses from `first` to `last`. -/
structure Directive where
  first : UInt16
  last : UInt16
  annotation : Annotation
  deriving DecidableEq

namespace Directive

/-- Whether the directive changes the format of the whole address space. -/
def isGlobalFormat (d : Directive) : Bool :=
  d.first = 0 && d.last = 0xFFFF && match d.annotation with
    | .format _ => true
    | _ => false

/-- Whether the directive is a comment on a line, whatever the line holds. -/
def isPlainComment (d : Directive) : Bool :=
  match d.annotation with
  | .comment _ _ => true
  | _ => false

/-- Whether the address lies in the range. -/
def contains (d : Directive) (address : Nat) : Bool :=
  d.first.toNat ≤ address && address ≤ d.last.toNat

/-- Whether `a` comes no later than `b` in the order of ranges. -/
def le (a b : Directive) : Bool :=
  a.first < b.first || (a.first = b.first && a.last ≤ b.last)

/-- The directives in the order of their ranges; equal ranges keep their order. -/
def sort (ds : List Directive) : List Directive := ds.mergeSort le

end Directive
end Disassembly
