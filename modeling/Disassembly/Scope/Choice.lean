/-
# Formatting options with a choice

Three options of a listing choose among named settings: which cycle counts a line shows, where
blank lines come after jumps, and which lines show their address. Each setting has a two-bit code and
one or more names, which are read in any case.
-/

namespace Disassembly

/-- Which cycle counts a code line shows. -/
inductive TimingDisplay
  | off
  | total
  | states
  | both
  deriving DecidableEq

namespace TimingDisplay

/-- The two-bit code of the setting. -/
def code : TimingDisplay → Nat
  | off => 0
  | total => 1
  | states => 2
  | both => 3

/-- The setting whose code is the low two bits of `n`. -/
def ofCode (n : Nat) : TimingDisplay :=
  match n % 4 with
  | 0 => off
  | 1 => total
  | 2 => states
  | _ => both

/-- The setting as it is named in explanations. -/
def title : TimingDisplay → String
  | off => "Off"
  | total => "Total"
  | states => "States"
  | both => "Both"

/-- The setting with the given name. -/
def ofName? (name : String) : Option TimingDisplay :=
  match name.toLower with
  | "off" | "none" => some off
  | "total" => some total
  | "states" | "cycles" => some states
  | "both" => some both
  | _ => none

end TimingDisplay

/-- When a blank line follows a control transfer. -/
inductive LineAfterJump
  /-- No blank lines. -/
  | never
  /-- After unconditional jumps and returns. -/
  | afterAbsolute
  /-- After every jump or return, conditional or not. -/
  | afterAll
  deriving DecidableEq

namespace LineAfterJump

/-- The two-bit code of the setting. -/
def code : LineAfterJump → Nat
  | never => 0
  | afterAbsolute => 1
  | afterAll => 2

/-- The setting whose code is the low two bits of `n`. -/
def ofCode (n : Nat) : LineAfterJump :=
  match n % 4 with
  | 0 => never
  | 1 => afterAbsolute
  | _ => afterAll

/-- The setting as it is named in explanations. -/
def title : LineAfterJump → String
  | never => "Never"
  | afterAbsolute => "AfterAbsolute"
  | afterAll => "AfterAll"

/-- The setting with the given name. -/
def ofName? (name : String) : Option LineAfterJump :=
  match name.toLower with
  | "never" => some never
  | "absolute" | "afterabsolute" => some afterAbsolute
  | "all" | "afterall" => some afterAll
  | _ => none

end LineAfterJump

/-- Which lines show their address. -/
inductive LabelPolicy
  | all
  | never
  /-- Only lines whose address some instruction or script refers to. -/
  | referenced
  deriving DecidableEq

namespace LabelPolicy

/-- The two-bit code of the setting. -/
def code : LabelPolicy → Nat
  | all => 0
  | never => 1
  | referenced => 2

/-- The setting whose code is the low two bits of `n`. -/
def ofCode (n : Nat) : LabelPolicy :=
  match n % 4 with
  | 0 => all
  | 1 => never
  | _ => referenced

/-- The setting as it is named in explanations. -/
def title : LabelPolicy → String
  | all => "All"
  | never => "Never"
  | referenced => "Referenced"

/-- The setting with the given name. -/
def ofName? (name : String) : Option LabelPolicy :=
  match name.toLower with
  | "all" => some all
  | "never" | "none" => some never
  | "referenced" => some referenced
  | _ => none

end LabelPolicy
end Disassembly
