/-
# Markup listings

A listing as a `disassembly` element with one `line` element for each line of the listing. Columns
are elements of their own, and a hidden address is left out.
-/

import Disassembly.Listing.Line

namespace Disassembly
namespace Markup

/-- A character as text of an element. -/
def escapeChar (c : Char) : String :=
  if c = '&' then "&amp;"
  else if c = '<' then "&lt;"
  else if c = '>' then "&gt;"
  else if c = '"' then "&quot;"
  else String.singleton c

/-- A text as text of an element. -/
def escape (text : String) : String := String.join (text.toList.map escapeChar)

/-- An element with a text in it. -/
def element (name text : String) : String :=
  "<" ++ name ++ ">" ++ escape text ++ "</" ++ name ++ ">"

/-- An element, or nothing for an absent text. -/
def element? (name : String) (text : Option String) : String :=
  match text with
  | some text => element name text
  | none => ""

/-- The address column. -/
def address : AddressColumn → String
  | .shown text => element "address" text
  | _ => ""

/-- The columns of an instruction. -/
def code (c : CodeColumns) : String :=
  element? "bytes" c.bytes ++ element "instruction" c.instruction ++ element? "flags" c.flags ++
    element? "timing" c.timing

/-- A `line` element around its columns. -/
def lineElement (columns : String) : String := "<line>" ++ columns ++ "</line>\n"

/-- A line. A blank body leaves the line empty, whatever else it has. -/
def line (column : AddressColumn) (line : Line) : String :=
  match line.body with
  | .blank => "<line/>\n"
  | .data text =>
    lineElement (address column ++ element "data" text ++ element? "comment" line.comment?)
  | .code columns =>
    lineElement (address column ++ code columns ++ element? "comment" line.comment?)

/-- The markup format. -/
def format : ListingFormat where
  opening := "<disassembly>\n"
  comment text := lineElement (element "comment" text)
  line := line
  blank := "<line/>\n"
  closing := "</disassembly>\n"

end Markup
end Disassembly
