/-
# Lines without their comments

Attaching comments to a line changes nothing else on it. What is left of a line without its comments
is its marker, its body, its jump, its blank-line policy and its separator.
-/

import Disassembly.Listing.Line

namespace Disassembly
namespace Line

/-- The line without its comments. -/
def bare (line : Line) : Line := { line with comments := [], before := [], after := [] }

@[simp] theorem bare_attach (line : Line) (position : Position) (text : String) :
    (line.attach position text).bare = line.bare := by
  cases position <;> rfl

/-- **Comments leave the rest of a line as it is.** -/
@[simp] theorem bare_attachAll (line : Line) (comments : List (Position × String)) :
    (line.attachAll comments).bare = line.bare := by
  unfold attachAll
  induction comments generalizing line with
  | nil => rfl
  | cons comment comments ih => rw [List.foldl_cons, ih, bare_attach]

/-- Whether a line shows its comments makes no difference without them. -/
theorem bare_shown (shown : Bool) (line : Line) (comments : List (Position × String)) :
    (if shown then line.attachAll comments else line).bare = line.bare := by
  cases shown with
  | true => rw [if_pos rfl, bare_attachAll]
  | false => rfl

/-- A line without comments has the marker of the line. -/
@[simp] theorem bare_marker (line : Line) : line.bare.marker = line.marker := rfl

end Line
end Disassembly
