/-
# Disassembly

A disassembly takes an image, directives and a default scope, and gives a listing. Format directives
for the whole address space change the default scope, in the order in which they are given. The rest
of the directives are laid over the image.
-/

import Disassembly.Labels
import Disassembly.Listing.Markup
import Disassembly.Listing.PlainText
import Disassembly.Walk

namespace Disassembly

/-- The scope after the format directives for the whole address space. -/
def baseScope (defaults : Scope) (directives : List Directive) : Scope :=
  directives.foldl (fun scope d =>
    match d.annotation with
    | .format change => if d.isGlobalFormat then change.apply scope else scope
    | _ => scope) defaults

/-- The directives that are laid over the image. -/
def scopedDirectives (directives : List Directive) : List Directive :=
  directives.filter fun d => !d.isGlobalFormat

/-- The format of the listing that a scope asks for. -/
def listingFormat (scope : Scope) : ListingFormat :=
  if scope.markup then Markup.format else PlainText.format

/-- Disassemble an image. Returns the progress reports made, also when a script fails. -/
def disassemble (m : Machine) (directives : List Directive) (defaults : Scope) :
    Progress × Except Script.Error String :=
  let base := baseScope defaults directives
  let walked := Walk.walk m (.start base (scopedDirectives directives))
    { total := 2 * m.image.length }
  match walked.2 with
  | .error e => (walked.1, .error e)
  | .ok w =>
    let text := Labels.listing (listingFormat base) w.references w.lines.toList
    ((Labels.progress walked.1 w.lines.size).finish, .ok text)

/-- The Spectrum with an image. -/
def Spectrum.machine (image : Image) : Machine := ⟨image, charset, floats⟩

end Disassembly
