/-
# Running scripts

A block is run from left to right: layout is skipped, literal characters are written, and constructs
take effect. Constructs that steer a script:

| construct | effect |
| --- | --- |
| `%( … %)` | a block; its truth value is a result |
| `%?rr a b` | compare two values; the comparison is a result, and is left out once decided |
| `%?Bc` | combine results by `A` and, `O` or, `X` exclusive or |
| `%Pname( … )` | call a routine; its truth value, if any, is a result |
| `%I%( … %)%( … %)` | run the second block if the first is true, else one after `%J`, if any |
| `%L%( … %)%( … %)` | run the second block as long as the first is true |
| `%Y`, `%Z` | leave the innermost loop, go on with its next round |

A block that does not run is skipped by counting brackets. An error is placed at the construct that
raised it; one raised inside an inner block keeps its place.
-/

import Disassembly.Routine.Call
import Disassembly.Script.Construct
import Disassembly.Script.Running

namespace Disassembly
namespace Script

/-- How often one loop may run its body. -/
def maxRounds : Nat := 262144

/-- Whether a block ended early, to leave the loop around it or to go on with its next round. -/
inductive Signal
  | onward
  | leave
  | again
  deriving DecidableEq

/-- The result of a block. -/
structure Outcome where
  truth : Bool
  signal : Signal

/-- What a construct asks of the block around it. -/
inductive Flow
  | onward (running : Running)
  | close
  | leave
  | again

/-- What a construct asks of the block around it after a block inside it. -/
def Signal.flow (running : Running) : Signal → Flow
  | onward => .onward running
  | leave => .leave
  | again => .again

/-- An error of a construct: its own, without a place yet, or one of a block inside it. -/
inductive Fault
  | own (kind : ErrorKind)
  | inner (error : Error)

/-- A part of a construct. -/
abbrev Part := EStateM Fault Context

/-- Runs of blocks. -/
abbrev Run := EStateM Error Context

/-- A step of a script as a part of a construct. -/
def Part.own {α : Type} (action : Action α) : Part α := action.adaptExcept .own

/-- A piece of source as a part of a construct. -/
def Part.source {α : Type} (result : Except ErrorKind α) : Part α := Part.own (Action.ofExcept result)

/-- A block as a part of a construct. -/
def Part.inner {α : Type} (run : Run α) : Part α := run.adaptExcept .inner

/-- A whole construct: its own errors are placed at `rest`, the program from its `%` on. -/
def Part.located {α : Type} (program rest : List Char) (part : Part α) : Run α := fun c =>
  match part c with
  | .ok a c => .ok a c
  | .error (.own kind) c => .error (locate program rest kind c.currentAddress) c
  | .error (.inner error) c => .error error c

/-- Fail at a place of the program. -/
def Run.fail {α : Type} (program rest : List Char) (kind : ErrorKind) : Run α := fun c =>
  .error (locate program rest kind c.currentAddress) c

/-- A runner of the blocks inside a construct, from just after `%(`. -/
abbrev Inner := List Char → Run (Outcome × List Char)

/-- Run the next block, with its bracket still to be read. -/
def nested (inner : Inner) (cs : List Char) : Part (Outcome × List Char) := do
  let cs ← Part.source (Source.expectOpen cs)
  Part.inner (inner cs)

/-- Run the next block if `condition` holds, and skip it otherwise. -/
def nestedIf (inner : Inner) (condition : Bool) (cs : List Char) : Part (Signal × List Char) := do
  let cs ← Part.source (Source.expectOpen cs)
  if condition then
    let (outcome, cs) ← Part.inner (inner cs)
    return (outcome.signal, cs)
  else return (.onward, ← Part.source (Source.skipToClose cs))

/-- A test, a block for when it is true and, if `%J` follows, one for when it is false. -/
def conditional (inner : Inner) (cs : List Char) : Part (Signal × List Char) := do
  let (test, cs) ← nested inner cs
  let (signal, cs) ← nestedIf inner test.truth cs
  match Source.skipLayout cs with
  | '%' :: 'J' :: otherwise =>
    let (signal', cs) ← nestedIf inner (!test.truth) otherwise
    return (if test.truth then signal else signal', cs)
  | _ => return (signal, cs)

/-- Run the test of a loop: whether the body runs, and the rest from the body on or after it. -/
def loopTest (inner : Inner) (test : List Char) : Part (Bool × List Char) := do
  let (outcome, cs) ← nested inner test
  let cs ← Part.source (Source.expectOpen cs)
  if outcome.truth then return (true, cs)
  else return (false, ← Part.source (Source.skipToClose cs))

/-- Run a loop whose body may run `rounds` more times. -/
def loop (inner : Inner) (test : List Char) : Nat → Part (List Char)
  | 0 => do
    let (goOn, cs) ← loopTest inner test
    if goOn then throw (.own (.loopLimit maxRounds)) else return cs
  | rounds + 1 => do
    let (goOn, cs) ← loopTest inner test
    if goOn then
      let (outcome, cs) ← Part.inner (inner cs)
      if outcome.signal = .leave then return cs else loop inner test rounds
    else return cs

/-- Read the way in which results are combined. -/
def combinator (cs : List Char) : Except ErrorKind (Combinator × List Char) := do
  let (letter, cs) ← Source.next cs
  match letter with
  | 'A' => return (.and, cs)
  | 'O' => return (.or, cs)
  | 'X' => return (.xor, cs)
  | other => throw (.unknownComparison (String.ofList ['B', other]))

/-- Read a comparison and its operands. -/
def relation (first : Char) (cs : List Char) :
    Except ErrorKind (Relation × Operand × Operand × List Char) := do
  let (second, cs) ← Source.next cs
  match Relation.ofName? first second with
  | none => throw (.unknownComparison (String.ofList [first, second]))
  | some relation =>
    let (a, cs) ← Operand.read cs
    let (b, cs) ← Operand.read cs
    return (relation, a, b, cs)

/-- Compare two values, or change the way in which results are combined. -/
def comparison (setting : Setting) (running : Running) (cs : List Char) :
    Action (Running × List Char) := do
  let (first, cs) ← Action.ofExcept (Source.next cs)
  if first = 'B' then
    let (combinator, cs) ← Action.ofExcept (combinator cs)
    return ({ running with combinator }, cs)
  else
    let (relation, a, b, cs) ← Action.ofExcept (relation first cs)
    if running.decided then return (running, cs)
    let x ← a.evaluate setting a.naturalWidth
    let y ← b.evaluate setting b.naturalWidth
    return (running.fold (relation.holds x y), cs)

/-- Call a routine and take in its result. -/
def call (setting : Setting) (running : Running) (cs : List Char) :
    Action (Running × List Char) := do
  let (name, arguments, cs) ← Action.ofExcept (Source.call cs)
  match ← Routine.call setting name arguments with
  | some truth => return (running.fold truth, cs)
  | none => return (running, cs)

/-- Run the construct whose tag comes next. `isNested` tells whether the block around it ends at a
bracket. -/
def construct (setting : Setting) (inner : Inner) (isNested : Bool) (running : Running) :
    List Char → Part (Flow × List Char)
  | [] => throw (.own .unexpectedEnd)
  | tag :: cs => do
    match tag with
    | '(' =>
      let (outcome, cs) ← Part.inner (inner cs)
      return (outcome.signal.flow (running.fold outcome.truth), cs)
    | ')' => if isNested then return (.close, cs) else throw (.own .unbalancedClose)
    | '?' =>
      let (running, cs) ← Part.own (comparison setting running cs)
      return (.onward running, cs)
    | 'P' =>
      let (running, cs) ← Part.own (call setting running cs)
      return (.onward running, cs)
    | 'I' =>
      let (signal, cs) ← conditional inner cs
      return (signal.flow running, cs)
    | 'L' => return (.onward running, ← loop inner cs maxRounds)
    | 'Y' => return (.leave, cs)
    | 'Z' => return (.again, cs)
    | tag => return (.onward running, ← Part.own (simple setting tag cs))

/-- End a block early, at the construct that begins at `rest`: what is left of an inner block is
skipped. -/
def endEarly (program rest : List Char) (isNested : Bool) (running : Running) (signal : Signal)
    (cs : List Char) : Run (Outcome × List Char) :=
  if isNested then
    match Source.skipToClose cs with
    | .ok cs => return (⟨running.truth, signal⟩, cs)
    | .error kind => Run.fail program rest kind
  else return (⟨running.truth, signal⟩, cs)

/-- Run a block up to its `%)` if it is nested, and to the end of the program otherwise. Each step
reads at least one character, so a number of steps above the length of the rest is never used up. -/
def block (setting : Setting) (program : List Char) :
    Nat → Bool → Running → List Char → Run (Outcome × List Char)
  | 0, _, _, rest => Run.fail program rest .endless
  | _ + 1, isNested, running, [] =>
    if isNested then Run.fail program [] .missingClose
    else return (⟨running.truth, .onward⟩, [])
  | steps + 1, isNested, running, c :: cs =>
    if Source.isBreak c then block setting program steps isNested running (Source.skipNewline (c :: cs))
    else if c = '%' then do
      let (flow, cs') ← Part.located program (c :: cs)
        (construct setting (block setting program steps true {}) isNested running cs)
      match flow with
      | .onward running => block setting program steps isNested running cs'
      | .close => return (⟨running.truth, .onward⟩, cs')
      | .leave => endEarly program (c :: cs) isNested running .leave cs'
      | .again => endEarly program (c :: cs) isNested running .again cs'
    else do
      modify (·.pushChar setting (setting.charset.translate c))
      block setting program steps isNested running cs

/-- Run a block from a place in the program. -/
def runBlock (setting : Setting) (program : List Char) (isNested : Bool) (cs : List Char) :
    Run (Outcome × List Char) :=
  block setting program (program.length + 1) isNested {} cs

/-- Run a program over a data block. -/
def run (setting : Setting) (program : String) : Run Outcome := do
  let cs := program.toList
  let (outcome, _) ← runBlock setting cs false (Source.skipNewline cs)
  return outcome

/-- Run the test of a pattern program at one address, and the block after it if the test is true. A
program that does not begin with a block is all test. Returns whether the test was true. -/
def candidate (setting : Setting) (program test : List Char) : Run Bool := do
  match test with
  | '%' :: '(' :: body =>
    let (outcome, cs) ← runBlock setting program true body
    if outcome.truth then
      match Source.skipLayout cs with
      | '%' :: '(' :: action => discard (runBlock setting program true action)
      | _ => pure ()
    return outcome.truth
  | _ => return (← runBlock setting program false test).1.truth

/-- Run a pattern program at `count` addresses from `address` on, after `matched` matches. -/
def candidates (setting : Setting) (program test : List Char) : Nat → Nat → UInt16 → Run UInt16
  | 0, _, matched => return matched
  | count + 1, address, matched => do
    modify (·.beginCandidate (UInt16.ofNat address) matched)
    let found ← candidate setting program test
    candidates setting program test count (address + 1) (if found then matched + 1 else matched)

/-- Run a program at every address of a pattern block. Returns how often its test was true. -/
def runPattern (setting : Setting) (program : String) : Run UInt16 := do
  let cs := program.toList
  let test := Source.skipIndent (Source.skipLayout cs)
  let c ← get
  let first := c.blockStart.toNat
  candidates setting cs test (c.blockEnd.toNat + 1 - first) first 0

end Script
end Disassembly
