/-
# Explanations

The parts of an annotation, spelled out by name for someone who checks a list of directives.
-/

import Disassembly.Directive.Basic
import Disassembly.Text.Quoted

namespace Disassembly

/-- An optional part. -/
def explainOption (part : Option String) : String :=
  match part with
  | some text => "Some(" ++ text ++ ")"
  | none => "None"

/-- A truth value. -/
def explainBool (b : Bool) : String := if b then "true" else "false"

/-- Named parts between braces. -/
def explainParts (name : String) (parts : List (String × String)) : String :=
  name ++ " \x7b " ++ String.intercalate ", " (parts.map fun part => part.1 ++ ": " ++ part.2) ++
    " \x7d"

/-- Every option of a scope. -/
def Scope.explain (s : Scope) : String :=
  explainParts "FormatScope" [
    ("address_base", s.addressBase.title),
    ("number_base", s.numberBase.title),
    ("opcode_bytes", explainOption (s.opcodeBytes.map Base.title)),
    ("timing", s.timing.title),
    ("line_after_jump", s.lineAfterJump.title),
    ("labels", s.labels.title),
    ("label_period", Numeral.decimal s.labelPeriod.toNat),
    ("comments", explainBool s.comments),
    ("separator", Text.quote s.separator),
    ("flags", explainBool s.flags),
    ("mark_undocumented", explainBool s.markUndocumented),
    ("markup", explainBool s.markup),
    ("data_references", explainBool s.dataReferences)]

/-- The option that a change sets. -/
def Scope.Change.explain : Scope.Change → String
  | addressBase base => "AddressBase(" ++ base.title ++ ")"
  | numberBase base => "NumberBase(" ++ base.title ++ ")"
  | opcodeBytes base => "OpcodeBytes(" ++ explainOption (base.map Base.title) ++ ")"
  | timing display => "Timing(" ++ display.title ++ ")"
  | lineAfterJump lines => "LineAfterJump(" ++ lines.title ++ ")"
  | labels policy => "Labels(" ++ policy.title ++ ")"
  | labelPeriod lines => "LabelPeriod(" ++ Numeral.decimal lines.toNat ++ ")"
  | comments shown => "Comments(" ++ explainBool shown ++ ")"
  | separator text => "Separator(" ++ Text.quote text ++ ")"
  | flags shown => "Flags(" ++ explainBool shown ++ ")"
  | markUndocumented shown => "Undocumented(" ++ explainBool shown ++ ")"
  | markup shown => "Markup(" ++ explainBool shown ++ ")"
  | dataReferences counted => "DataReferences(" ++ explainBool counted ++ ")"
  | custom scope => "Custom(" ++ scope.explain ++ ")"

/-- What a directive does with its range. -/
def Annotation.explain : Annotation → String
  | format change => "Format(" ++ change.explain ++ ")"
  | dataBlock program => "DataBlock(" ++ Text.quote program ++ ")"
  | patternBlock program => "PatternBlock(" ++ Text.quote program ++ ")"
  | comment position text =>
    explainParts "Comment" [("position", position.title), ("text", Text.quote text)]
  | reference position matching value text =>
    explainParts "CommentReference" [
      ("position", position.title),
      ("matching", matching.title),
      ("value", Numeral.decimal value.toNat),
      ("text", Text.quote text)]
  | displacement position matching d text =>
    explainParts "CommentDisplacement" [
      ("position", position.title),
      ("matching", matching.title),
      ("displacement", Numeral.integer d.toInt),
      ("text", Text.quote text)]

end Disassembly
