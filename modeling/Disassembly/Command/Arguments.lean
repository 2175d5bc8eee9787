/-
# Command lines

A command line has options, a command and more options. An option is written `--name`, with its value
as the next argument or after an equals sign. Most options may stand before the command or after it;
what is given after it counts, unless the option is given more often before it. An option counts
once, except for those that collect values.
-/

import Disassembly.Text.Offset

namespace Disassembly
namespace Command

/-- How often an option may be given, and whether it has a value. -/
inductive Arity
  | flag
  | value
  | values
  deriving DecidableEq

/-- An option. -/
structure Spec where
  name : String
  arity : Arity
  /-- The letter of the short form. -/
  short : Option Char := none

/-- The commands. -/
inductive Verb
  | disassemble
  | directives
  deriving DecidableEq

namespace Verb

/-- The command with a name, in any case. -/
def ofName? (name : String) : Option Verb :=
  match name.toLower with
  | "dis" => some disassemble
  | "directives" => some directives
  | _ => none

/-- The name of a command. -/
def name : Verb → String
  | disassemble => "dis"
  | directives => "directives"

/-- The command with exactly this name. -/
def ofWord? (word : String) : Option Verb :=
  [disassemble, directives].find? fun v => v.name = word

end Verb

/-- The options that may stand before the command. -/
def globalSpecs : List Spec := [
  ⟨"program", .value, none⟩,
  ⟨"image", .value, none⟩,
  ⟨"origin", .value, none⟩,
  ⟨"offset", .value, none⟩,
  ⟨"length", .value, none⟩,
  ⟨"directives", .values, none⟩,
  ⟨"preset", .values, none⟩,
  ⟨"address-base", .value, none⟩,
  ⟨"number-base", .value, none⟩,
  ⟨"opcode-bytes", .value, none⟩,
  ⟨"timing", .value, none⟩,
  ⟨"line-after-jump", .value, none⟩,
  ⟨"labels", .value, none⟩,
  ⟨"label-period", .value, none⟩,
  ⟨"flags", .flag, none⟩,
  ⟨"mark-undocumented", .flag, none⟩,
  ⟨"markup", .flag, none⟩,
  ⟨"project", .value, none⟩]

/-- The options of one command. -/
def Verb.specs : Verb → List Spec
  | disassemble => [⟨"output", .value, some 'o'⟩, ⟨"progress", .flag, none⟩]
  | directives => [⟨"explain", .flag, none⟩, ⟨"presets", .flag, none⟩]

/-- An option as it is given: how often, and with which values. -/
structure Given where
  spec : Spec
  count : Nat
  values : List String

/-- Options as they are given on one side of the command. -/
abbrev Givens := List Given

namespace Givens

/-- The option with a name, if it is given. -/
def find? (g : Givens) (name : String) : Option Given :=
  List.find? (fun given => given.spec.name = name) g

/-- Change the entry of an option. -/
def update (spec : Spec) (f : Given → Given) : Givens → Givens
  | [] => [f ⟨spec, 0, []⟩]
  | given :: rest =>
    if given.spec.name = spec.name then f given :: rest else given :: update spec f rest

/-- Count an option once more. -/
def occur (g : Givens) (spec : Spec) : Givens :=
  update spec (fun given => { given with count := given.count + 1 }) g

/-- Add a value of an option. -/
def addValue (g : Givens) (spec : Spec) (value : String) : Givens :=
  update spec (fun given => { given with values := given.values ++ [value] }) g

/-- Whether every option is given as often as it may be, and with a value if it needs one. -/
def valid (g : Givens) : Bool :=
  g.all fun given =>
    (given.spec.arity = .values || given.count ≤ 1) &&
      (given.spec.arity = .flag || !given.values.isEmpty)

/-- Whether an option is given. -/
def isPresent (g : Givens) (name : String) : Bool := (g.find? name).isSome

/-- The values of an option. -/
def values (g : Givens) (name : String) : List String :=
  ((g.find? name).map Given.values).getD []

/-- The value of an option. -/
def value? (g : Givens) (name : String) : Option String := (g.values name).head?

/-- The options before and after the command: those after it count, unless given less often. -/
def merge (before after : Givens) : Givens :=
  after.map (fun given =>
    match before.find? given.spec.name with
    | some other => if given.count < other.count then other else given
    | none => given)
  ++ before.filter fun given => !after.isPresent given.spec.name

end Givens

/-- Whether an argument is an option rather than a value. -/
def isOption (arg : String) : Bool :=
  match arg.toList with
  | '-' :: _ :: _ => true
  | _ => false

/-- The name and the value in an argument that starts with two dashes. -/
def splitLong (arg : String) : String × Option String :=
  let cs := arg.toList.dropWhile (· = '-')
  let name := cs.takeWhile (· ≠ '=')
  match cs.drop name.length with
  | [] => (String.ofList name, none)
  | value => (String.ofList name, some (String.ofList (value.dropWhile (· = '='))))

/-- An option in an argument: the option and its value, if the argument has one. -/
def readOption? (specs : List Spec) (arg : String) : Option (Spec × Option String) :=
  match arg.toList with
  | '-' :: '-' :: _ =>
    let (name, value) := splitLong arg
    (specs.find? fun spec => spec.name = name).map fun spec => (spec, value)
  | '-' :: letter :: rest =>
    (specs.find? fun spec => spec.short = some letter).map fun spec =>
      (spec, match rest with
        | [] => none
        | value => some (String.ofList (value.dropWhile (· = '='))))
  | _ => none

/-- What is read from one side of a command line: the options given, and the command with the
arguments after it, if one was found. -/
structure Side where
  givens : Givens
  rest : Option (Verb × List String)

/-- Read options up to a command, or to the end. `awaiting` is an option whose value comes next. None
if the arguments cannot be read. -/
def readSide (specs : List Spec) (takesVerb : Bool) (awaiting : Option Spec) (givens : Givens) :
    List String → Option Side
  | [] => some ⟨givens, none⟩
  | arg :: args =>
    if arg = "--" then if args.isEmpty then some ⟨givens, none⟩ else none
    else if isOption arg then
      match readOption? specs arg with
      | none => none
      | some (spec, value) =>
        let givens := givens.occur spec
        match spec.arity, value with
        | .flag, _ => readSide specs takesVerb none givens args
        | _, some value => readSide specs takesVerb none (givens.addValue spec value) args
        | _, none => readSide specs takesVerb (some spec) givens args
    else match awaiting with
      | some spec => readSide specs takesVerb none (givens.addValue spec arg) args
      | none =>
        match Verb.ofWord? arg with
        | some verb => if takesVerb then some ⟨givens, some (verb, args)⟩ else none
        | none => none

/-- A command and the options given for it. -/
structure Invocation where
  verb : Verb
  givens : Givens

/-- Read a command line. None if it is not a use of the commands. -/
def read? (args : List String) : Option Invocation :=
  match readSide globalSpecs true none [] args with
  | some ⟨before, some (verb, args)⟩ =>
    match readSide (globalSpecs ++ verb.specs) false none [] args with
    | some ⟨after, _⟩ =>
      if before.valid && after.valid then some ⟨verb, before.merge after⟩ else none
    | none => none
  | _ => none

end Command
end Disassembly
