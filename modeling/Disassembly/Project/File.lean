/-
# Project files

A project file holds programs by name. Programs are kept in the order of their names, and the first
one is the default; of two programs with one name the later one counts.
-/

import Disassembly.Project.Program

namespace Disassembly

/-- The programs of a project in the order of their names, and the directory of its file. -/
structure Project where
  programs : List (String × Program)
  root : String

namespace Project

/-- An address. -/
def addressReader : Json.Reader UInt16 := do return UInt16.ofNat (← Json.unsigned 0xFFFF)

/-- A size in memory. -/
def sizeReader : Json.Reader Nat := Json.unsigned 0xFFFFFFFFFFFFFFFF

/-- The fields of formatting options. -/
def formatFields : List (Json.Field Scope.Override) := [
  { name := "address_base"
    read := fun o => do
      return { o with addressBase := ← Json.optional (Json.named Base.ofName?) } },
  { name := "number_base"
    read := fun o => do
      return { o with numberBase := ← Json.optional (Json.named Base.ofName?) } },
  { name := "opcode_bytes"
    read := fun o => do
      return { o with opcodeBytes := ← Json.optional (Json.named Base.ofName?) } },
  { name := "timing"
    read := fun o => do
      return { o with timing := ← Json.optional (Json.named TimingDisplay.ofName?) } },
  { name := "line_after_jump"
    read := fun o => do
      return { o with lineAfterJump := ← Json.optional (Json.named LineAfterJump.ofName?) } },
  { name := "labels"
    read := fun o => do
      return { o with labels := ← Json.optional (Json.named LabelPolicy.ofName?) } },
  { name := "label_period"
    read := fun o => do
      let period ← Json.optional (Json.unsigned 0xFF)
      return { o with labelPeriod := period.map UInt8.ofNat } },
  { name := "comments"
    read := fun o => do return { o with comments := ← Json.optional Json.bool } },
  { name := "separator"
    read := fun o => do return { o with separator := ← Json.optional Json.string } },
  { name := "flags"
    read := fun o => do return { o with flags := ← Json.optional Json.bool } },
  { name := "mark_undocumented"
    read := fun o => do return { o with markUndocumented := ← Json.optional Json.bool } },
  { name := "markup"
    read := fun o => do return { o with markup := ← Json.optional Json.bool } },
  { name := "data_references"
    read := fun o => do return { o with dataReferences := ← Json.optional Json.bool } }]

/-- The fields of a built-in program over a range. -/
def presetFields : List (Json.Field PresetBlock) := [
  { name := "program", required := true, requiredInArray := true
    read := fun b => do return { b with program := ← Json.string } },
  { name := "start", required := true, requiredInArray := true
    read := fun b => do return { b with first := ← addressReader } },
  { name := "end", required := true, requiredInArray := true
    read := fun b => do return { b with last := ← addressReader } }]

/-- The fields of a program. -/
def programFields : List (Json.Field Program) := [
  { name := "image", requiredInArray := true
    read := fun p => do return { p with image := ← Json.optional Json.string } },
  { name := "offset", requiredInArray := true
    read := fun p => do return { p with offset := ← Json.optional sizeReader } },
  { name := "origin", requiredInArray := true
    read := fun p => do return { p with origin := ← Json.optional addressReader } },
  { name := "length", requiredInArray := true
    read := fun p => do return { p with length := ← Json.optional sizeReader } },
  { name := "format"
    read := fun p => do return { p with format := ← Json.record formatFields {} } },
  { name := "directives"
    read := fun p => do return { p with directives := ← Json.list Json.string } },
  { name := "directive_files"
    read := fun p => do return { p with directiveFiles := ← Json.list Json.string } },
  { name := "presets"
    read := fun p => do
      return { p with presets := ← Json.list (Json.record presetFields ⟨"", 0, 0⟩) } }]

/-- A program. -/
def programReader : Json.Reader Program := Json.record programFields {}

/-- Put a program in the place of its name, instead of one with the same name. -/
def insert (name : String) (p : Program) : List (String × Program) → List (String × Program)
  | [] => [(name, p)]
  | q :: qs =>
    if name < q.1 then (name, p) :: q :: qs
    else if name = q.1 then (name, p) :: qs
    else q :: insert name p qs

/-- Programs in the order of their names, each with its name. -/
def ofPrograms (programs : List (String × Program)) : List (String × Program) :=
  programs.foldl (fun sorted (name, p) => insert name { p with name := some name } sorted) []

/-- The fields of a project. -/
def projectFields : List (Json.Field (List (String × Program))) := [
  { name := "programs", read := fun _ => Json.object programReader }]

/-- Read a project file whose directory is `root`. -/
def parse (text : List UInt8) (root : String) : Except Json.Error Project :=
  (Json.run (Json.record projectFields []) text).map fun programs => ⟨ofPrograms programs, root⟩

/-- Read the settings of one program. -/
def parseProgram (text : List UInt8) : Except Json.Error Program := Json.run programReader text

/-- The program with a name. -/
def program? (p : Project) (name : String) : Option Program :=
  (p.programs.find? fun entry => entry.1 = name).map Prod.snd

/-- The program named, or else the first one, with settings laid over it; the settings alone when
there is no program. -/
def resolve (p : Project) (name : Option String) (settings : Program) : Except Failure Program :=
  match name with
  | some name =>
    match p.program? name with
    | some program => .ok (program.merge settings)
    | none => .error (.unknownProgram name)
  | none =>
    match p.programs with
    | (_, program) :: _ => .ok (program.merge settings)
    | [] => .ok settings

end Project
end Disassembly
