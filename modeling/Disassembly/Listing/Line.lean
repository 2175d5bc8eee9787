/-
# Listing lines

A line as the walk builds it: the address it starts at with what decides whether the address is
shown, the body, and the comments attached to it. A line has no more of its layout than that; the
two listing formats write it.
-/

import Disassembly.Directive.Basic

namespace Disassembly

/-- The address of a line, with everything that decides whether it is shown. -/
structure Marker where
  address : UInt16
  base : Base
  labels : LabelPolicy
  period : UInt8
  /-- Whether the line renders data rather than an instruction. -/
  data : Bool

/-- The columns of a decoded instruction. Hidden columns are absent. -/
structure CodeColumns where
  bytes : Option String
  instruction : String
  flags : Option String
  timing : Option String

/-- What a line holds. -/
inductive Body
  | code (columns : CodeColumns)
  | data (text : String)
  | blank

/-- The address column of a line. -/
inductive AddressColumn
  /-- The line has no address column. -/
  | absent
  /-- As many blanks as an address would take. -/
  | hidden (width : Nat)
  | shown (text : String)

/-- The column that shows the address of a line. -/
def AddressColumn.ofShown (m : Marker) : AddressColumn := .shown (Numeral.address m.address m.base)

/-- The column that hides the address of a line. -/
def AddressColumn.ofHidden (m : Marker) : AddressColumn := .hidden (Numeral.addressWidth m.base)

/-- One line of a listing. -/
structure Line where
  marker : Option Marker
  body : Body
  /-- Comments at the end of the line. -/
  comments : List String := []
  /-- Comments on lines of their own before the line. -/
  before : List String := []
  /-- Comments on lines of their own after the line. -/
  after : List String := []
  jump : Z80.Jump := .none
  lineAfter : LineAfterJump := .never
  separator : String

namespace Line

/-- A line with nothing on it. -/
def blank : Line := { marker := none, body := .blank, separator := "" }

/-- Add a comment after those already at its position. -/
def attach (line : Line) (position : Position) (text : String) : Line :=
  match position with
  | .before => { line with before := line.before ++ [text] }
  | .endOfLine => { line with comments := line.comments ++ [text] }
  | .after => { line with after := line.after ++ [text] }

/-- Add comments in order. -/
def attachAll (line : Line) (comments : List (Position × String)) : Line :=
  comments.foldl (fun line comment => line.attach comment.1 comment.2) line

/-- Whether a blank line follows. -/
def wantsGap (line : Line) : Bool :=
  match line.lineAfter, line.jump with
  | .never, _ => false
  | _, .none => false
  | .afterAbsolute, .unconditional => true
  | .afterAbsolute, .conditional => false
  | .afterAll, _ => true

/-- The comments at the end of the line as one. -/
def comment? (line : Line) : Option String :=
  if line.comments.isEmpty then none else some (String.intercalate "; " line.comments)

end Line

/-- A way to write listings. -/
structure ListingFormat where
  /-- What opens a listing. -/
  opening : String
  /-- A comment on a line of its own. -/
  comment : String → String
  /-- A line with its end-of-line comment, without the comments before and after it. -/
  line : AddressColumn → Line → String
  /-- An empty line. -/
  blank : String
  /-- What closes a listing. -/
  closing : String

/-- A line with the comments before and after it. -/
def ListingFormat.record (f : ListingFormat) (column : AddressColumn) (line : Line) : String :=
  String.join (line.before.map f.comment) ++ f.line column line ++
    String.join (line.after.map f.comment)

end Disassembly
