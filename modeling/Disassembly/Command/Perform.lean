/-
# Performing commands

`dis` writes the listing of a program. `directives` lists its directives in the order of their
ranges, or the built-in programs. Both take a program from the project file, if there is one, with
the settings of the command line laid over it. A command reads and writes files through a host, so
that the same text of a command can run on a disk or on a table of files. The paths of a project are
resolved in whatever way there is.
-/

import Disassembly.Command.Arguments
import Disassembly.Directive.Explain
import Disassembly.Disassemble
import Disassembly.Project.File

namespace Disassembly
namespace Command

/-- What a command can do to the world. -/
structure Host (m : Type → Type) where
  load : String → m (Except FileError (Array UInt8))
  save : String → String → m (Except FileError Unit)
  out : String → m Unit
  err : String → m Unit

/-- The file that holds the project unless another is named. -/
def defaultProjectFile : String := "zxdis.json"

/-- A number from zero to `max`, if the option is given. -/
def numberOption (g : Givens) (name : String) (max : Nat) : Except Failure (Option Nat) :=
  match g.value? name with
  | none => .ok none
  | some text =>
    match Numeral.readNumber? text.toList with
    | some n => if 0 ≤ n ∧ n ≤ max then .ok (some n.toNat) else .error (.option text name)
    | none => .error (.option text name)

/-- A named setting, if the option is given. -/
def namedOption {α : Type} (g : Givens) (name : String) (ofName? : String → Option α) :
    Except Failure (Option α) :=
  match g.value? name with
  | none => .ok none
  | some text =>
    match ofName? text with
    | some a => .ok (some a)
    | none => .error (.option text name)

/-- A setting that is on if the option is given. -/
def flagOption (g : Givens) (name : String) : Option Bool :=
  if g.isPresent name then some true else none

/-- A number of lines. -/
def readPeriod? (text : String) : Option UInt8 :=
  (Numeral.readCount? 255 text.toList).map UInt8.ofNat

/-- The formatting options given. -/
def formatOptions (g : Givens) : Except Failure Scope.Override := do
  let addressBase ← namedOption g "address-base" Base.ofName?
  let numberBase ← namedOption g "number-base" Base.ofName?
  let opcodeBytes ← namedOption g "opcode-bytes" Base.ofName?
  let timing ← namedOption g "timing" TimingDisplay.ofName?
  let lineAfterJump ← namedOption g "line-after-jump" LineAfterJump.ofName?
  let labels ← namedOption g "labels" LabelPolicy.ofName?
  let labelPeriod ← namedOption g "label-period" readPeriod?
  return {
    addressBase, numberBase, opcodeBytes, timing, lineAfterJump, labels, labelPeriod
    flags := flagOption g "flags"
    markUndocumented := flagOption g "mark-undocumented"
    markup := flagOption g "markup" }

/-- The settings given. -/
def programOptions (g : Givens) : Except Failure Program := do
  let offset ← numberOption g "offset" 0xFFFFFFFF
  let origin ← numberOption g "origin" 0xFFFF
  let length ← numberOption g "length" 0x10000
  let format ← formatOptions g
  let presets ← (g.values "preset").mapM PresetBlock.parse
  return {
    image := g.value? "image"
    offset
    origin := origin.map UInt16.ofNat
    length
    format
    directiveFiles := g.values "directives"
    presets }

section Running

variable {m : Type → Type} [Monad m]

/-- A file as text. -/
def Host.readText (host : Host m) (path : String) : m (Except FileError String) := do
  match ← host.load path with
  | .error e => return .error e
  | .ok bytes =>
    match String.fromUTF8? (ByteArray.mk bytes) with
    | some text => return .ok text
    | none => return .error .notText

/-- The project in a file, or an empty project in the current directory if there is no file. -/
def readProject (host : Host m) (file : String) : ExceptT Failure m Project := do
  match ← host.load file with
  | .error .notFound => return ⟨[], ""⟩
  | .error e => throw (.file e)
  | .ok bytes =>
    match Project.parse bytes.toList (Path.parent file) with
    | .ok project => return project
    | .error e => throw (.json e)

/-- Go on with a value, or fail. -/
def orFail {α : Type} (result : Except Failure α) : ExceptT Failure m α := ExceptT.mk (pure result)

/-- The progress reports as they are shown, each over the one before. -/
def progressText (p : Progress) : String :=
  String.join (p.reports.toList.map fun (done, total) =>
    "\r" ++ Numeral.decimal done ++ "/" ++ Numeral.decimal total)

/-- Write the listing of a program. -/
def disassembleProgram [Path.Resolver] (host : Host m) (p : Program) (root : String) (g : Givens) :
    ExceptT Failure m Unit := do
  let path ← orFail (p.imagePath root)
  let data ← match ← host.load path with
    | .ok data => pure data
    | .error e => throw (.file e)
  let image ← orFail ((Image.window data p.windowOffset p.windowOrigin
    (p.windowLength data.size)).mapError .window)
  let directives ← p.loadDirectives host.readText root
  let (progress, result) := disassemble (Spectrum.machine image) directives p.format.scope
  let showsProgress := g.isPresent "progress"
  if showsProgress then host.err (progressText progress)
  let listing ← orFail (result.mapError .script)
  if showsProgress then host.err "\n"
  match g.value? "output" with
  | none => host.out listing
  | some output =>
    match ← host.save output listing with
    | .ok _ => return ()
    | .error e => throw (.file e)

/-- A text with blanks up to a width. -/
def padTo (width : Nat) (text : String) : String :=
  text ++ String.ofList (List.replicate (width - text.length) ' ')

/-- The list of built-in programs. -/
def presetList : String :=
  String.join (Preset.all.map fun preset =>
    let kind := match preset.kind with
      | .data => "data"
      | .pattern => "pattern"
    padTo 24 preset.name ++ " " ++ padTo 8 kind ++ " " ++ preset.summary ++ "\n")

/-- A directive in a list, in its stored form or explained. -/
def directiveLine (explained : Bool) (d : Directive) : String :=
  if explained then
    Numeral.hexWord d.first ++ "-" ++ Numeral.hexWord d.last ++ " " ++ d.annotation.explain ++ "\n"
  else d.store ++ "\n"

/-- List the directives of a program, or the built-in programs. -/
def listDirectives [Path.Resolver] (host : Host m) (p : Program) (root : String) (g : Givens) :
    ExceptT Failure m Unit := do
  if g.isPresent "presets" then host.out presetList
  else
    let directives ← p.loadDirectives host.readText root
    let lines := (Directive.sort directives).map (directiveLine (g.isPresent "explain"))
    host.out (String.join lines)
    host.err (Numeral.decimal directives.length ++ " directives\n")

/-- Run a command. -/
def perform [Path.Resolver] (host : Host m) (i : Invocation) : ExceptT Failure m Unit := do
  let g := i.givens
  let project ← readProject host ((g.value? "project").getD defaultProjectFile)
  let settings ← orFail (programOptions g)
  let program ← orFail (project.resolve (g.value? "program") settings)
  match i.verb with
  | .disassemble => disassembleProgram host program project.root g
  | .directives => listDirectives host program project.root g

end Running
end Command
end Disassembly
