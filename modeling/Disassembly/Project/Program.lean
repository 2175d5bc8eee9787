/-
# Programs of a project

A program is an image to disassemble with everything needed to annotate it. Settings given on a
command line are laid over those of a project: single settings win, lists are appended.
-/

import Disassembly.Preset
import Disassembly.Project.Failure
import Disassembly.Project.Path
import Disassembly.Scope.Override

namespace Disassembly

/-- A built-in program over a range of addresses. -/
structure PresetBlock where
  program : String
  first : UInt16
  last : UInt16

namespace PresetBlock

/-- An address, as a number in the range of addresses. -/
def readAddress? (cs : List Char) : Option UInt16 :=
  ((Numeral.readNumber? cs).filter fun n => 0 ≤ n && n ≤ 0xFFFF).map fun n => UInt16.ofNat n.toNat

/-- The block written `name:first:last`. Further parts are ignored. -/
def parse (text : String) : Except Failure PresetBlock :=
  match Text.splitOn ':' text.toList with
  | name :: first :: last :: _ =>
    match name, readAddress? first, readAddress? last with
    | _ :: _, some first, some last => .ok ⟨String.ofList name, first, last⟩
    | _, _, _ => .error (.option text "preset")
  | _ => .error (.option text "preset")

/-- The directive that runs the program over the range. -/
def directive (b : PresetBlock) : Except Failure Directive :=
  match Preset.ofName? b.program with
  | some preset => .ok (preset.directive b.first b.last)
  | none => .error (.unknownPreset b.program)

end PresetBlock

/-- The settings of a program. -/
structure Program where
  /-- The path of the image. -/
  image : Option String := none
  /-- Where the window starts in the image. -/
  offset : Option Nat := none
  /-- The address of the first byte of the window. -/
  origin : Option UInt16 := none
  /-- How many bytes the window has. -/
  length : Option Nat := none
  /-- Formatting options. -/
  format : Scope.Override := {}
  /-- Directives in their stored form. -/
  directives : List String := []
  /-- The paths of files of directives. -/
  directiveFiles : List String := []
  /-- Built-in programs over ranges. -/
  presets : List PresetBlock := []
  /-- The name of the program in its project. -/
  name : Option String := none

namespace Program

/-- Both programs, where settings in `later` win and lists are appended. -/
def merge (p later : Program) : Program :=
  { image := later.image.or p.image
    offset := later.offset.or p.offset
    origin := later.origin.or p.origin
    length := later.length.or p.length
    format := p.format.merge later.format
    directives := p.directives ++ later.directives
    directiveFiles := p.directiveFiles ++ later.directiveFiles
    presets := p.presets ++ later.presets
    name := later.name.or p.name }

/-- The path of the image, seen from the directory of the project. -/
def imagePath [Path.Resolver] (p : Program) (root : String) : Except Failure String :=
  match p.image with
  | some path => .ok (Path.Resolver.toPath root path)
  | none => .error .noImage

/-- Where the window starts in the image. -/
def windowOffset (p : Program) : Nat := p.offset.getD 0

/-- The address of the first byte of the window. -/
def windowOrigin (p : Program) : UInt16 := p.origin.getD 0

/-- How many bytes the window has: by default everything from the offset to the end of the image. -/
def windowLength (p : Program) (imageLength : Nat) : Nat :=
  p.length.getD (imageLength - p.windowOffset)

/-- The directives given inline. -/
def inlineDirectives (p : Program) : Except Failure (List Directive) :=
  (p.directives.mapM Directive.parse).mapError .directive

/-- The directives in a file. -/
def fileDirectives {m : Type → Type} [Monad m] (readText : String → m (Except FileError String))
    (path : String) : ExceptT Failure m (List Directive) := do
  match ← readText path with
  | .error e => throw (.directiveFile path e)
  | .ok text =>
    match Directive.parseFile text with
    | .ok ds => return ds
    | .error e => throw (.directive e)

/-- The directives of a program: those given inline, those in files and those of presets. -/
def loadDirectives [Path.Resolver] {m : Type → Type} [Monad m]
    (readText : String → m (Except FileError String)) (p : Program) (root : String) :
    ExceptT Failure m (List Directive) := do
  let inlined ← ExceptT.mk (pure p.inlineDirectives)
  let fromFiles ← p.directiveFiles.mapM fun path =>
    fileDirectives readText (Path.Resolver.toPath root path)
  let fromPresets ← ExceptT.mk (pure (p.presets.mapM PresetBlock.directive))
  return inlined ++ fromFiles.flatten ++ fromPresets

end Program
end Disassembly
