/-
# Plain text listings

Columns are joined by the separator of the line, and comments start with `;`.
-/

import Disassembly.Listing.Line

namespace Disassembly
namespace PlainText

/-- The address column. -/
def addressFields : AddressColumn → List String
  | .absent => []
  | .hidden width => [String.ofList (List.replicate width ' ')]
  | .shown text => [text]

/-- The columns of an instruction. -/
def codeFields (c : CodeColumns) : List String :=
  c.bytes.toList ++ [c.instruction] ++ c.flags.toList ++ c.timing.toList

/-- The comment at the end of a line. -/
def commentFields (line : Line) : List String :=
  line.comment?.toList.map (";" ++ ·)

/-- A line. A blank body leaves the line empty, whatever else it has. -/
def line (column : AddressColumn) (line : Line) : String :=
  match line.body with
  | .blank => "\n"
  | .data text =>
    String.intercalate line.separator (addressFields column ++ [text] ++ commentFields line) ++ "\n"
  | .code columns =>
    String.intercalate line.separator
      (addressFields column ++ codeFields columns ++ commentFields line) ++ "\n"

/-- The plain text format. -/
def format : ListingFormat where
  opening := ""
  comment text := ";" ++ text ++ "\n"
  line := line
  blank := "\n"
  closing := ""

end PlainText
end Disassembly
