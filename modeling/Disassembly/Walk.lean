/-
# The walk

The walk goes through the window once and turns every address into a part of a line. At each stop it
takes up the directives that have started: formats and comments come into effect, pattern blocks are
searched, and a data block is rendered by its script and moves the cursor behind itself. Where no
data block starts, one instruction is decoded. An instruction that the end of the window cuts off is
dumped as bytes.
-/

import Disassembly.Preset
import Disassembly.Progress
import Disassembly.Scope.Stack
import Disassembly.Script.Eval

namespace Disassembly

/-- What a walk sees and cannot change. -/
structure Machine where
  image : Image
  charset : CharacterSet
  floats : FloatCodec

/-- The state of a walk. -/
structure Walk where
  scopes : Scope.Stack
  overlay : Overlay
  references : Std.TreeSet UInt16
  lines : Array Line

namespace Walk

/-- The state before the first step. -/
def start (base : Scope) (directives : List Directive) : Walk :=
  { scopes := .ofBase base
    overlay := .ofList directives
    references := ∅
    lines := #[] }

/-- The scope in effect. -/
def scope (w : Walk) : Scope := w.scopes.current

/-- What a script sees at this point of the walk. -/
def setting (m : Machine) (w : Walk) : Script.Setting :=
  { image := m.image, scope := w.scope, charset := m.charset, floats := m.floats }

/-- The context of a script that starts at the cursor; a block ends with the window at the latest. -/
def context (m : Machine) (w : Walk) (cursor : Nat) (last : UInt16) : Script.Context :=
  .start (w.setting m) w.overlay w.references (UInt16.ofNat cursor) (min last m.image.last)

/-- Render a data block from the cursor on. Returns where to go on, always behind the cursor. -/
def dataBlock (m : Machine) (w : Walk) (cursor : Nat) (last : UInt16) (program : String) :
    Except Script.Error (Nat × Walk) :=
  match Script.run (w.setting m) program (w.context m cursor last) with
  | .error e _ => .error e
  | .ok _ c =>
    let done := c.finish (w.setting m)
    .ok (max c.resume (cursor + 1),
      { w with
        overlay := done.overlay
        references := done.references
        lines := w.lines ++ done.lines })

/-- Search a pattern block from the cursor on. It writes no lines. -/
def patternBlock (m : Machine) (w : Walk) (cursor : Nat) (last : UInt16) (program : String) :
    Except Script.Error Walk :=
  match Script.runPattern (w.setting m) program (w.context m cursor last) with
  | .error e _ => .error e
  | .ok _ c => .ok { w with overlay := c.overlay, references := c.references }

/-- The columns of an instruction with these bytes. -/
def codeColumns (i : Z80.Instruction) (bytes : List UInt8) (scope : Scope) : CodeColumns :=
  { bytes := scope.opcodeBytes.map (Numeral.opcodeBytes bytes)
    instruction :=
      if scope.markUndocumented && i.opcode.undocumented then i.text ++ "*" else i.text
    flags :=
      if scope.flags && i.opcode.flags.any then some i.opcode.flags.describe else none
    timing := match scope.timing with
      | .off => none
      | .total => some i.opcode.timing.describeTotal
      | .states => some i.opcode.timing.describeStates
      | .both =>
        some (i.opcode.timing.describeTotal ++ " (" ++ i.opcode.timing.describeStates ++ ")") }

/-- The address that an operand refers to. Words count if `dataReferences` is set. -/
def reference? (dataReferences : Bool) : Z80.Operand → Option UInt16
  | .relative a => some a
  | .address a => some a
  | .number n => if dataReferences then some n else none
  | _ => none

/-- The line of an instruction at the cursor, without comments. -/
def codeLine (i : Z80.Instruction) (bytes : List UInt8) (scope : Scope) (cursor : Nat) : Line :=
  { marker := some
      { address := UInt16.ofNat cursor
        base := scope.addressBase
        labels := scope.labels
        period := scope.labelPeriod
        data := false }
    body := .code (codeColumns i bytes scope)
    jump := i.opcode.jump
    lineAfter := scope.lineAfterJump
    separator := scope.separator }

/-- Add the line of an instruction at the cursor, with the comments on its bytes and operands. -/
def addCode (w : Walk) (i : Z80.Instruction) (bytes : List UInt8) (cursor : Nat) : Walk :=
  let scope := w.scope
  let taken := w.overlay.takeComments cursor (cursor + i.length - 1)
  let onOperands := i.operands.flatMap (taken.2.commentsOn cursor)
  let line := codeLine i bytes scope cursor
  { w with
    overlay := taken.2
    references := (i.operands.filterMap (reference? scope.dataReferences)).foldl
      (fun refs a => refs.insert a) w.references
    lines := w.lines.push (if scope.comments then line.attachAll (taken.1 ++ onOperands) else line) }

/-- Decode one instruction at the cursor, or dump the rest of the window if it is cut off. Returns
where to go on. -/
def decodeLine (m : Machine) (w : Walk) (cursor : Nat) : Except Script.Error (Nat × Walk) :=
  let bytes := m.image.windowUpTo cursor Z80.longest
  match Z80.decode bytes (UInt16.ofNat cursor) w.scope.numberBase with
  | .error _ => w.dataBlock m cursor m.image.last Preset.rawBytes
  | .ok i => .ok (cursor + i.length, w.addCode i (bytes.take i.length) cursor)

/-- Why taking up directives stopped. -/
inductive Stop
  /-- No directive that has started is left. -/
  | settled
  /-- A pattern block was searched, which may have added directives. -/
  | searched
  /-- A data block was rendered up to an address. -/
  | resumeAt (next : Nat)

/-- Take up directives that have started by the cursor, in order, until a block is run. A directive
that ended before the cursor is dropped. Each step uses up one directive, so as many steps as there
are pending directives are enough. -/
def takeUp (m : Machine) (cursor : Nat) : Nat → Walk → Except Script.Error (Stop × Walk)
  | 0, w => .ok (.settled, w)
  | steps + 1, w =>
    match w.overlay.takeActive cursor with
    | none => .ok (.settled, w)
    | some (d, overlay) =>
      let w := { w with overlay }
      if d.last.toNat < cursor then takeUp m cursor steps w
      else match d.annotation with
        | .format change => takeUp m cursor steps { w with scopes := w.scopes.push d.last change }
        | .reference .. | .displacement .. =>
          takeUp m cursor steps { w with overlay := w.overlay.activate d }
        | .dataBlock program =>
          (w.dataBlock m cursor d.last program).map fun (next, w) => (.resumeAt next, w)
        | .patternBlock program =>
          (w.patternBlock m cursor d.last program).map fun w => (.searched, w)
        | .comment .. => takeUp m cursor steps w

/-- Whether the directive is a pattern block. -/
def isPattern (d : Directive) : Bool :=
  match d.annotation with
  | .patternBlock _ => true
  | _ => false

/-- Take up every directive that has started by the cursor. Returns where to go on if a data block
was rendered. Scripts add no pattern blocks, so there are no more searches than pattern blocks
pending. -/
def activate (m : Machine) (cursor : Nat) : Nat → Walk → Except Script.Error (Option Nat × Walk)
  | 0, w => .ok (none, w)
  | searches + 1, w =>
    match takeUp m cursor w.overlay.pending.length w with
    | .error e => .error e
    | .ok (.settled, w) => .ok (none, w)
    | .ok (.resumeAt next, w) => .ok (some next, w)
    | .ok (.searched, w) => activate m cursor searches w

/-- Drop what has ended before the cursor. -/
def expire (w : Walk) (cursor : Nat) : Walk :=
  { w with scopes := w.scopes.expire cursor, overlay := w.overlay.expire cursor }

/-- One stop of the walk. Returns where to go on. -/
def step (m : Machine) (w : Walk) (cursor : Nat) : Except Script.Error (Nat × Walk) :=
  let w := w.expire cursor
  match activate m cursor (w.overlay.pending.countP isPattern + 1) w with
  | .error e => .error e
  | .ok (some next, w) => .ok (next, w)
  | .ok (none, w) => w.decodeLine m cursor

/-- Walk from the cursor to the end of the window. Each step moves the cursor on, so as many steps as
there are bytes left are enough. Progress is kept even when a script fails. -/
def walkFrom (m : Machine) :
    Nat → Nat → Walk → Progress → Progress × Except Script.Error Walk
  | 0, _, w, p => (p, .ok w)
  | steps + 1, cursor, w, p =>
    if cursor < m.image.stop then
      let p := p.report (cursor - m.image.origin.toNat)
      match w.step m cursor with
      | .error e => (p, .error e)
      | .ok (next, w) => walkFrom m steps next w p
    else (p, .ok w)

/-- Walk through the whole window. -/
def walk (m : Machine) (w : Walk) (p : Progress) : Progress × Except Script.Error Walk :=
  walkFrom m m.image.length m.image.origin.toNat w p

end Walk
end Disassembly
