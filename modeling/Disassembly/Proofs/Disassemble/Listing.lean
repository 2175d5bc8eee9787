/-
# A disassembly is a walk and its listing

A disassembly fails exactly if its walk does, and otherwise lists the lines that the walk left.
-/

import Disassembly.Disassemble

namespace Disassembly

/-- The walk of a disassembly: from the origin, with the scope for the whole address space and the
other directives. -/
def walkOf (m : Machine) (directives : List Directive) (defaults : Scope) :
    Except Script.Error Walk :=
  (Walk.walk m (.start (baseScope defaults directives) (scopedDirectives directives))
    { total := 2 * m.image.length }).2

/-- **A disassembly is the listing of its walk.** -/
theorem disassemble_snd (m : Machine) (directives : List Directive) (defaults : Scope) :
    (disassemble m directives defaults).2 = (walkOf m directives defaults).map fun w =>
      Labels.listing (listingFormat (baseScope defaults directives)) w.references
        w.lines.toList := by
  unfold disassemble walkOf
  simp only
  split
  · rename_i hwalk
    rw [hwalk]
    rfl
  · rename_i hwalk
    rw [hwalk]
    rfl

end Disassembly
