/-
# Labels

After the walk every referenced address is known, and each line can be given its address column. Under
the policy `referenced` an address is shown if something refers to it, or if the lines before it of
the same kind, code or data, have gone without one for the given period. Lines without a marker do
not count.
-/

import Disassembly.Listing.Line
import Disassembly.Progress
import Std.Data.TreeSet

namespace Disassembly
namespace Labels

/-- How many lines of one kind have gone without an address. -/
structure Counter where
  unlabelled : Nat := 0
  /-- Whether the last line with a marker was data. -/
  lastData : Option Bool := none

/-- The counter before a line with the given marker: a change between code and data starts over. -/
def Counter.enter (c : Counter) (m : Marker) : Counter :=
  if c.lastData = some m.data then c else ⟨0, some m.data⟩

/-- Whether the address of a line is shown. -/
def isShown (references : Std.TreeSet UInt16) (c : Counter) (m : Marker) : Bool :=
  match m.labels with
  | .all => true
  | .never => false
  | .referenced =>
    references.contains m.address || (0 < m.period && m.period.toNat ≤ c.unlabelled)

/-- The address column of a line, and the counter after it. -/
def column (references : Std.TreeSet UInt16) (c : Counter) :
    Option Marker → AddressColumn × Counter
  | none => (.absent, c)
  | some m =>
    let c := c.enter m
    if isShown references c m then (.ofShown m, { c with unlabelled := 0 })
    else (.ofHidden m, { c with unlabelled := c.unlabelled + 1 })

/-- The address columns of lines in order. -/
def columns (references : Std.TreeSet UInt16) : Counter → List Line → List AddressColumn
  | _, [] => []
  | c, line :: lines =>
    let (col, c) := column references c line.marker
    col :: columns references c lines

/-- A line in a listing, with the gap after it. -/
def lineText (format : ListingFormat) (column : AddressColumn) (line : Line) : String :=
  format.record column line ++ if line.wantsGap then format.blank else ""

/-- The text of a listing. -/
def listing (format : ListingFormat) (references : Std.TreeSet UInt16) (lines : List Line) :
    String :=
  format.opening ++
    String.join (List.zipWith (lineText format) (columns references {} lines) lines) ++
    format.closing

/-- The progress reports for writing the lines: one for each, past the first half of the total. -/
def progress (p : Progress) (lines : Nat) : Progress :=
  (List.range lines).foldl (fun p i => p.report (p.total / 2 + min i (p.total / 2))) p

end Labels
end Disassembly
