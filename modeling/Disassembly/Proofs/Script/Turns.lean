/-
# Runs of scripts, turn by turn

Blocks are run by a function that counts its steps and calls itself for the blocks inside. Here a
run is a sequence of stages instead, without any count of steps: a stage has the rest of the script,
the context and the blocks that wait for the one at hand, each at a construct of its own
(`Stage.next`). A loop goes back to its test by a turn of its own, and keeps count of its rounds. A
search takes its turns over the addresses of its block in the same way. There is no next stage
behind the end of a run, behind an error, and at a call of a routine that never returns.

The turns lead to what the function gives (`Settles`): from the start of a block they lead behind
it, and from the start of a program to its result (`run_settles`, `runPattern_settles`).
-/

import Disassembly.Proofs.Script.Forward
import Disassembly.Proofs.Script.Programs

namespace Disassembly
namespace Script

open Source (isBreak skipNewline skipLayout skipIndent skipToClose expectOpen)

/-! ### Stages -/

/-- What a block inside a construct is run for. -/
inductive Purpose
  /-- Its truth value is a result. -/
  | result
  /-- It is the test of a conditional. -/
  | test
  /-- It is the branch for when the test was true. -/
  | yes
  /-- It is the branch for when the test was false. -/
  | no
  /-- It is the test of a loop that has begun this many rounds. -/
  | loopTest (rounds : Nat)
  /-- It is the body of a loop that has begun this many rounds. -/
  | loopBody (rounds : Nat)

/-- The tag of the construct. -/
def Purpose.tag : Purpose → Char
  | result => '('
  | test | yes | no => 'I'
  | loopTest _ | loopBody _ => 'L'

/-- A block as far as it has been run. -/
structure Block where
  isNested : Bool
  running : Running := {}

/-- The outcome of a block that ends with a signal. -/
def Block.outcome (b : Block) (signal : Signal) : Outcome := ⟨b.running.truth, signal⟩

/-- A block that waits at one of its constructs for a block inside it. -/
structure Frame where
  block : Block
  /-- The script behind the tag of the construct. -/
  text : List Char
  purpose : Purpose

/-- The script from the construct on. -/
def Frame.construct (f : Frame) : List Char := '%' :: f.purpose.tag :: f.text

/-- Where a search over the addresses of a pattern block stands. -/
structure Seek where
  /-- The program from its test on. -/
  text : List Char
  /-- How many addresses are left. -/
  count : Nat
  address : Nat
  matched : UInt16

/-- The search behind an address. -/
def Seek.next (seek : Seek) (found : Bool) : Seek :=
  { seek with
    address := seek.address + 1
    matched := if found then seek.matched + 1 else seek.matched }

/-- What waits for the block at hand. -/
inductive Stack
  /-- Nothing: it is a program over a data block. -/
  | program
  /-- A search, for its test at an address. -/
  | test (seek : Seek)
  /-- A search, for the block behind its test. -/
  | action (seek : Seek)
  /-- A block around it, and what waits for that one. -/
  | push (frame : Frame) (stack : Stack)

/-- What a program gives. -/
inductive Verdict
  | outcome (outcome : Outcome)
  | matches (matched : UInt16)

/-- A stage of a run. -/
inductive Stage
  /-- A block goes on. -/
  | reading (stack : Stack) (block : Block) (rest : List Char) (c : Context)
  /-- A block is left early, at one of its constructs. -/
  | leaving (stack : Stack) (block : Block) (construct : List Char) (signal : Signal)
      (rest : List Char) (c : Context)
  /-- A loop begins a round with its body, for which a frame is to wait. -/
  | beginning (stack : Stack) (frame : Frame) (body : List Char) (c : Context)
  /-- A block has ended. -/
  | returned (stack : Stack) (outcome : Outcome) (rest : List Char) (c : Context)
  /-- A search comes to its next address. -/
  | seeking (seek : Seek) (c : Context)
  /-- The run has ended well. -/
  | done (verdict : Verdict) (c : Context)
  /-- The run has ended with an error at a construct. -/
  | failed (kind : ErrorKind) (construct : List Char) (c : Context)

namespace Stage

/-! ### Turns -/

/-- Behind a piece of source that a construct reads. -/
def read {α : Type} (construct : List Char) (c : Context) (onward : α → Stage) :
    Except ErrorKind α → Stage
  | .ok a => onward a
  | .error kind => .failed kind construct c

/-- Behind a step of a construct. -/
def after {α : Type} (construct : List Char) (onward : α → Context → Stage) :
    EStateM.Result ErrorKind Context α → Stage
  | .ok a c => onward a c
  | .error kind c => .failed kind construct c

/-- In the next block, for which a frame waits. -/
def enter (stack : Stack) (f : Frame) (cs : List Char) (c : Context) : Stage :=
  read f.construct c (fun body => .reading (.push f stack) { isNested := true } body c)
    (expectOpen cs)

/-- Behind a construct that gives a signal. -/
def onward (stack : Stack) (block : Block) (construct : List Char) (signal : Signal)
    (rest : List Char) (c : Context) : Stage :=
  if signal = .onward then .reading stack block rest c
  else .leaving stack block construct signal rest c

/-- Behind a block inside a construct. -/
def behind (stack : Stack) (f : Frame) (outcome : Outcome) (rest : List Char) (c : Context) :
    Stage :=
  match f.purpose with
  | .result =>
    onward stack { f.block with running := f.block.running.after outcome } f.construct
      outcome.signal rest c
  | .test =>
    read f.construct c (fun yes =>
      if outcome.truth then
        .reading (.push { f with purpose := .yes } stack) { isNested := true } yes c
      else read f.construct c (fun rest =>
        match else? rest with
        | some otherwise => enter stack { f with purpose := .no } otherwise c
        | none => .reading stack f.block rest c) (skipToClose yes)) (expectOpen rest)
  | .yes =>
    read f.construct c (fun rest => onward stack f.block f.construct outcome.signal rest c)
      (afterElse rest)
  | .no => onward stack f.block f.construct outcome.signal rest c
  | .loopTest rounds =>
    read f.construct c (fun body =>
      if outcome.truth then
        if rounds < maxRounds then
          .beginning stack { f with purpose := .loopBody (rounds + 1) } body c
        else .failed (.loopLimit maxRounds) f.construct c
      else read f.construct c (fun rest => .reading stack f.block rest c) (skipToClose body))
      (expectOpen rest)
  | .loopBody rounds =>
    if outcome.signal = .leave then .reading stack f.block rest c
    else enter stack { f with purpose := .loopTest rounds } f.text c

/-- Whether a routine never returns. -/
def neverReturns {α : Type} : EStateM.Result ErrorKind Context α → Bool
  | .error .endless _ => true
  | _ => false

/-- The turn at a construct, given the script behind its `%`. -/
def atConstruct (setting : Setting) (stack : Stack) (block : Block) (c : Context) :
    List Char → Option Stage
  | [] => some (.failed .unexpectedEnd ['%'] c)
  | tag :: cs =>
    let construct := '%' :: tag :: cs
    match tag with
    | '(' => some (.reading (.push ⟨block, cs, .result⟩ stack) { isNested := true } cs c)
    | ')' =>
      some (if block.isNested then .returned stack (block.outcome .onward) cs c
        else .failed .unbalancedClose construct c)
    | '?' =>
      some (after construct (fun (running, rest) c => .reading stack { block with running } rest c)
        (comparison setting block.running cs c))
    | 'P' =>
      let result := call setting block.running cs c
      if neverReturns result then none
      else some (after construct
        (fun (running, rest) c => .reading stack { block with running } rest c) result)
    | 'I' => some (enter stack ⟨block, cs, .test⟩ cs c)
    | 'L' => some (enter stack ⟨block, cs, .loopTest 0⟩ cs c)
    | 'Y' => some (.leaving stack block construct .leave cs c)
    | 'Z' => some (.leaving stack block construct .again cs c)
    | tag => some (after construct (fun rest c => .reading stack block rest c)
        (simple setting tag cs c))

/-- The turn at the next address of a search. -/
def seek (seek : Seek) (c : Context) : Stage :=
  match seek.count with
  | 0 => .done (.matches seek.matched) c
  | count + 1 =>
    let c := c.beginCandidate (UInt16.ofNat seek.address) seek.matched
    match open? seek.text with
    | some body => .reading (.test { seek with count }) { isNested := true } body c
    | none => .reading (.test { seek with count }) { isNested := false } seek.text c

/-- Behind the test of a search. -/
def tested (seek : Seek) (outcome : Outcome) (rest : List Char) (c : Context) : Stage :=
  if (open? seek.text).isSome && outcome.truth then
    match open? (skipLayout rest) with
    | some action => .reading (.action seek) { isNested := true } action c
    | none => .seeking (seek.next true) c
  else .seeking (seek.next outcome.truth) c

/-- **One turn of a run.** -/
def next (setting : Setting) : Stage → Option Stage
  | .reading stack block [] c =>
    some (if block.isNested then .failed .missingClose [] c
      else .returned stack (block.outcome .onward) [] c)
  | .reading stack block (char :: cs) c =>
    if isBreak char then some (.reading stack block (skipNewline (char :: cs)) c)
    else if char = '%' then atConstruct setting stack block c cs
    else some (.reading stack block cs (c.pushChar setting (setting.charset.translate char)))
  | .leaving stack block construct signal rest c =>
    some (if block.isNested then
        read construct c (fun rest => .returned stack (block.outcome signal) rest c)
          (skipToClose rest)
      else .returned stack (block.outcome signal) rest c)
  | .beginning stack f body c => some (.reading (.push f stack) { isNested := true } body c)
  | .returned .program outcome _ c => some (.done (.outcome outcome) c)
  | .returned (.test seek) outcome rest c => some (tested seek outcome rest c)
  | .returned (.action seek) _ _ c => some (.seeking (seek.next true) c)
  | .returned (.push f stack) outcome rest c => some (behind stack f outcome rest c)
  | .seeking s c => some (seek s c)
  | .done .. => none
  | .failed .. => none

/-- The first stage of a program that is run over a data block. -/
def start (program : String) (c : Context) : Stage :=
  .reading .program { isNested := false } (skipNewline program.toList) c

/-- The first stage of a program that is run at every address of a pattern block. -/
def startPattern (program : String) (c : Context) : Stage :=
  .seeking ⟨skipIndent (skipLayout program.toList), c.blockEnd.toNat + 1 - c.blockStart.toNat,
    c.blockStart.toNat, 0⟩ c

/-- Turns lead from one stage to another, past the stages in between. -/
inductive Turns (setting : Setting) : Stage → List Stage → Stage → Prop
  | refl (s : Stage) : Turns setting s [] s
  | head {s s' t : Stage} {path : List Stage} (turn : s.next setting = some s')
      (rest : Turns setting s' path t) : Turns setting s (s :: path) t

/-- Some turns lead from one stage to another. -/
def Reaches (setting : Setting) (s t : Stage) : Prop := ∃ path, Turns setting s path t

variable {setting : Setting} {program : List Char} {s s' t t' : Stage} {path path' : List Stage}

theorem Turns.trans (h : Turns setting s path t) (h' : Turns setting t path' t') :
    Turns setting s (path ++ path') t' := by
  induction h with
  | refl s => exact h'
  | head turn rest ih => exact .head turn (ih h')

/-- **There is one sequence of turns**: from wherever other turns lead, it goes on to where it ends.
-/
theorem Turns.goesOn (h : Turns setting s path t) (hend : t.next setting = none)
    (h' : Turns setting s path' t') : ∃ more, path = path' ++ more ∧ Turns setting t' more t := by
  induction h' generalizing path with
  | refl s => exact ⟨path, rfl, h⟩
  | @head s u t' path' turn rest ih =>
    cases h with
    | refl => simp [hend] at turn
    | @head _ v _ path turn' rest' =>
      obtain rfl : v = u := Option.some.inj (turn'.symm.trans turn)
      obtain ⟨more, rfl, hmore⟩ := ih rest'
      exact ⟨more, rfl, hmore⟩

/-- A run has one end. -/
theorem Turns.end_unique (h : Turns setting s path t) (hend : t.next setting = none)
    (h' : Turns setting s path' t') (hend' : t'.next setting = none) : t = t' := by
  obtain ⟨more, -, hmore⟩ := h.goesOn hend h'
  cases hmore with
  | refl => rfl
  | head turn _ => simp [hend'] at turn

theorem Reaches.refl (s : Stage) : Reaches setting s s := ⟨[], .refl s⟩

theorem Reaches.head (turn : s.next setting = some s') (h : Reaches setting s' t) :
    Reaches setting s t :=
  let ⟨path, hpath⟩ := h
  ⟨s :: path, .head turn hpath⟩

theorem Reaches.trans (h : Reaches setting s t) (h' : Reaches setting t t') :
    Reaches setting s t' :=
  let ⟨path, hpath⟩ := h
  let ⟨path', hpath'⟩ := h'
  ⟨path ++ path', hpath.trans hpath'⟩

/-- A run stands at a call of a routine that never returns. -/
inductive Hangs (setting : Setting) : Stage → Prop
  | call {stack : Stack} {block : Block} {cs : List Char} {c c' : Context}
      (h : Script.call setting block.running cs c = .error .endless c') :
      Hangs setting (.reading stack block ('%' :: 'P' :: cs) c)

/-- A run fails at a stage with an error: the one that the stage has, placed in the program, or that
of a call that never returns. -/
inductive Fails (setting : Setting) (program : List Char) : Stage → Error → Context → Prop
  | failed (kind : ErrorKind) (construct : List Char) (c : Context) :
      Fails setting program (.failed kind construct c)
        (locate program construct kind c.currentAddress) c
  | hangs {stack : Stack} {block : Block} {cs : List Char} {c c' : Context}
      (h : Script.call setting block.running cs c = .error .endless c') :
      Fails setting program (.reading stack block ('%' :: 'P' :: cs) c)
        (locate program ('%' :: 'P' :: cs) .endless c'.currentAddress) c'

/-- **The turns from a stage lead to a result**: onward if it is one that ended well, and otherwise
to a stage that fails with its error. -/
def Settles {α : Type} (setting : Setting) (program : List Char) (s : Stage)
    (onward : α → Context → Stage) : EStateM.Result Error Context α → Prop
  | .ok a c => Reaches setting s (onward a c)
  | .error e c => ∃ t, Reaches setting s t ∧ Fails setting program t e c

namespace Settles

variable {α β : Type} {next : α → Context → Stage} {next' : β → Context → Stage}

theorem head {r : EStateM.Result Error Context α} (turn : s.next setting = some s')
    (h : Settles setting program s' next r) : Settles setting program s next r := by
  cases r with
  | ok a c => exact Reaches.head turn h
  | error e c =>
    obtain ⟨t, hreaches, hfails⟩ := h
    exact ⟨t, hreaches.head turn, hfails⟩

theorem ok {a : α} {c : Context} (h : s = next a c) :
    Settles setting program s next (.ok a c) :=
  h ▸ Reaches.refl s

/-- **What is composed leads to its result part by part.** -/
theorem bind {x : Run α} {f : α → Run β} {c : Context}
    (h : Settles setting program s next (x c))
    (h' : ∀ a c', x c = .ok a c' → Settles setting program (next a c') next' (f a c')) :
    Settles setting program s next' ((x >>= f) c) := by
  rw [bind_apply]
  cases hx : x c with
  | error e c' =>
    rw [hx] at h
    exact h
  | ok a c' =>
    rw [hx] at h
    have hf := h' a c' hx
    change Settles setting program s next' (f a c')
    cases hresult : f a c' with
    | ok b c'' =>
      rw [hresult] at hf
      exact Reaches.trans h hf
    | error e c'' =>
      rw [hresult] at hf
      obtain ⟨t, hreaches, hfails⟩ := hf
      exact ⟨t, Reaches.trans h hreaches, hfails⟩

end Settles

end Stage

/-! ### Constructs as runs -/

section Located

variable {α β : Type} (program construct : List Char)

/-- A construct is located part by part. -/
theorem located_bind (x : Part α) (f : α → Part β) :
    Part.located program construct (x >>= f) =
      Part.located program construct x >>= fun a => Part.located program construct (f a) := by
  funext c
  rw [bind_apply, Part.located, Part.located, bind_apply]
  cases x c with
  | ok a c' => rfl
  | error fault c' => cases fault <;> rfl

/-- A block inside a construct keeps the places of its errors. -/
theorem located_inner (run : Run α) : Part.located program construct (Part.inner run) = run := by
  funext c
  unfold Part.located Part.inner EStateM.adaptExcept
  cases run c <;> rfl

/-- Source that is read in two parts. -/
theorem source_bind (r : Except ErrorKind α) (f : α → Except ErrorKind β) :
    Part.source (r >>= f) = Part.source r >>= fun a => Part.source (f a) := by
  cases r <;> rfl

end Located

/-- A conditional runs one of its branches, and skips the other. -/
theorem conditional_eq_branches (inner : Inner) (cs : List Char) :
    conditional inner cs = (do
      let (test, cs) ← nested inner cs
      let yes ← Part.source (expectOpen cs)
      if test.truth then
        let (outcome, cs) ← Part.inner (inner yes)
        return (outcome.signal, ← Part.source (afterElse cs))
      else
        let cs ← Part.source (skipToClose yes)
        match else? cs with
        | some otherwise =>
          let (outcome, cs) ← nested inner otherwise
          return (outcome.signal, cs)
        | none => return (.onward, cs)) := by
  rw [conditional_eq]
  refine congrArg (nested inner cs >>= ·) (funext fun (test, cs) => ?_)
  dsimp only
  rw [nestedIf, bind_assoc]
  refine congrArg (Part.source (expectOpen cs) >>= ·) (funext fun yes => ?_)
  cases test.truth with
  | true =>
    simp only [if_true, Bool.not_true, bind_assoc, pure_bind]
    refine congrArg (Part.inner (inner yes) >>= ·) (funext fun (outcome, cs) => ?_)
    unfold afterElse
    cases else? cs with
    | none => rfl
    | some otherwise =>
      simp only [nestedIf, Bool.false_eq_true, if_false, bind_assoc, pure_bind, source_bind]
  | false =>
    simp only [Bool.false_eq_true, if_false, Bool.not_false, bind_assoc, pure_bind]
    refine congrArg (Part.source (skipToClose yes) >>= ·) (funext fun cs => ?_)
    cases else? cs with
    | none => rfl
    | some otherwise => simp only [nestedIf, nested, if_true, bind_assoc, pure_bind]

/-- A loop runs its test, and then its body and what is left of it, or skips the body. -/
theorem loop_eq_rounds (inner : Inner) (test : List Char) (rounds : Nat) :
    loop inner test rounds = (do
      let (outcome, cs) ← nested inner test
      let body ← Part.source (expectOpen cs)
      if outcome.truth then
        match rounds with
        | 0 => throw (.own (.loopLimit maxRounds))
        | rounds + 1 =>
          let (outcome, cs) ← Part.inner (inner body)
          if outcome.signal = .leave then return cs else loop inner test rounds
      else Part.source (skipToClose body)) := by
  cases rounds with
  | zero =>
    rw [loop, loopTest]
    simp only [bind_assoc]
    refine congrArg (nested inner test >>= ·) (funext fun (outcome, cs) => ?_)
    refine congrArg (Part.source (expectOpen cs) >>= ·) (funext fun body => ?_)
    cases outcome.truth <;> simp
  | succ rounds =>
    rw [loop, loopTest]
    simp only [bind_assoc]
    refine congrArg (nested inner test >>= ·) (funext fun (outcome, cs) => ?_)
    refine congrArg (Part.source (expectOpen cs) >>= ·) (funext fun body => ?_)
    cases outcome.truth <;> simp

/-! ### The turns lead to what blocks give -/

namespace Stage

variable {setting : Setting} {program cs : List Char} {stack : Stack} {block : Block} {f : Frame}
  {c : Context} {inner : Inner} {steps : Nat}

/-- The turn at a simple construct. -/
theorem atConstruct_simple (setting : Setting) (stack : Stack) (block : Block) (c : Context)
    {tag : Char} (cs : List Char) (htag : tag ∉ ['(', ')', '?', 'P', 'I', 'L', 'Y', 'Z']) :
    atConstruct setting stack block c (tag :: cs) =
      some (after ('%' :: tag :: cs) (fun rest c => .reading stack block rest c)
        (simple setting tag cs c)) := by
  simp only [atConstruct]
  split <;> first | rfl | exact absurd htag (by decide)

theorem neverReturns_iff {α : Type} {r : EStateM.Result ErrorKind Context α} :
    neverReturns r = true ↔ ∃ c, r = .error .endless c := by
  unfold neverReturns
  split <;> simp_all

/-- A piece of source leads on, or to an error at its construct. -/
theorem read_settles {α β : Type} {construct : List Char} {onward : α → Stage}
    {r : Except ErrorKind α} {c : Context} {f : α → Part β} {next : β → Context → Stage}
    (h : ∀ a, r = .ok a →
      Settles setting program (onward a) next (Part.located program construct (f a) c)) :
    Settles setting program (read construct c onward r) next
      (Part.located program construct (Part.source r >>= f) c) := by
  cases r with
  | ok a => exact h a rfl
  | error kind => exact ⟨_, .refl _, .failed kind construct c⟩

/-- A step leads on, or to an error at its construct. -/
theorem after_settles {α β : Type} {construct : List Char} {onward : α → Context → Stage}
    {x : Action α} {c : Context} {f : α → Part β} {next : β → Context → Stage}
    (h : ∀ a c', x c = .ok a c' →
      Settles setting program (onward a c') next (Part.located program construct (f a) c')) :
    Settles setting program (after construct onward (x c)) next
      (Part.located program construct (Part.own x >>= f) c) := by
  rw [located_bind, bind_apply]
  unfold Part.located Part.own EStateM.adaptExcept
  cases hx : x c with
  | ok a c' => exact h a c' hx
  | error kind c' => exact ⟨_, .refl _, .failed kind construct c'⟩

/-- The stage behind a construct, by what it asks of its block. -/
def flowed (stack : Stack) (block : Block) (construct rest : List Char) (c : Context) :
    Flow → Stage
  | .onward running => .reading stack { block with running } rest c
  | .close => .returned stack (block.outcome .onward) rest c
  | .leave => .leaving stack block construct .leave rest c
  | .again => .leaving stack block construct .again rest c

/-- **A call of a routine leads on**, unless the routine never returns. -/
theorem call_settles : Settles setting program (.reading stack block ('%' :: 'P' :: cs) c)
    (fun r c => flowed stack block ('%' :: 'P' :: cs) r.2 c r.1)
    (Part.located program ('%' :: 'P' :: cs) (do
      let (running, cs) ← Part.own (call setting block.running cs)
      return (.onward running, cs)) c) := by
  cases hnever : neverReturns (call setting block.running cs c) with
  | true =>
    obtain ⟨c', hcall⟩ := neverReturns_iff.1 hnever
    rw [located_bind, bind_apply]
    unfold Part.located Part.own EStateM.adaptExcept
    rw [hcall]
    exact ⟨_, .refl _, .hangs hcall⟩
  | false =>
    have hturn : next setting (.reading stack block ('%' :: 'P' :: cs) c) =
        some (after ('%' :: 'P' :: cs)
          (fun (running, rest) c => .reading stack { block with running } rest c)
          (call setting block.running cs c)) := by
      change (if neverReturns (call setting block.running cs c) then none else some _) = _
      rw [hnever, if_neg Bool.false_ne_true]
    refine Settles.head hturn (after_settles ?_)
    rintro ⟨running, rest⟩ c' -
    exact .ok rfl

/-- The turns from the start of a nested block lead behind it, if its text is shorter than the
number of steps. -/
def InnerSettles (setting : Setting) (program : List Char) (steps : Nat) (inner : Inner) : Prop :=
  ∀ {stack : Stack} {body : List Char} {c : Context}, body.length < steps →
    Settles setting program (.reading stack { isNested := true } body c)
      (fun r c => .returned stack r.1 r.2 c) (inner body c)

section Blocks

variable (hinner : InnerSettles setting program steps inner)
include hinner

/-- **The next block is entered, and has ended.** -/
theorem enter_settles (hcs : cs.length < steps) :
    Settles setting program (enter stack f cs c) (fun r c => .returned (.push f stack) r.1 r.2 c)
      (Part.located program f.construct (nested inner cs) c) := by
  refine read_settles fun body hopen => ?_
  rw [located_inner]
  have hbody := Source.length_add_two (Source.expectOpen_suffix hopen)
  exact hinner (by omega)

variable (hreads : ReadsBlocks inner)
include hreads

/-- The next block is entered, and what follows goes on with less of the script. -/
theorem enter_bind_settles {β : Type} {onward : β → Context → Stage}
    {part : Outcome × List Char → Part β} (hcs : cs.length < steps)
    (h : ∀ outcome rest c', rest.length ≤ cs.length →
      Settles setting program (behind stack f outcome rest c') onward
        (Part.located program f.construct (part (outcome, rest)) c')) :
    Settles setting program (enter stack f cs c) onward
      (Part.located program f.construct (nested inner cs >>= part) c) := by
  rw [located_bind]
  refine (enter_settles hinner hcs).bind ?_
  rintro ⟨outcome, rest⟩ c' hnested
  obtain ⟨body, hopen, hrun⟩ := nested_eq_ok (located_eq_ok.1 hnested)
  exact (h outcome rest c' (hreads.suffix hopen hrun).length_le).head rfl

/-- **The turns of a conditional** lead behind its branches. -/
theorem conditional_settles (hcs : cs.length < steps) :
    Settles setting program (enter stack ⟨block, cs, .test⟩ cs c)
      (fun r c => onward stack block ('%' :: 'I' :: cs) r.1 r.2 c)
      (Part.located program ('%' :: 'I' :: cs) (conditional inner cs) c) := by
  rw [conditional_eq_branches]
  refine enter_bind_settles hinner hreads hcs fun test rest c₁ hrest => ?_
  refine read_settles fun yes hyes => ?_
  have hyes := Source.length_add_two (Source.expectOpen_suffix hyes)
  cases test.truth with
  | true =>
    simp only [if_true, located_bind program _ (Part.inner _), located_inner]
    refine (hinner (by omega)).bind ?_
    rintro ⟨outcome, rest'⟩ c₂ -
    refine Settles.head rfl (read_settles fun rest'' hafter => ?_)
    exact .ok rfl
  | false =>
    simp only [Bool.false_eq_true, if_false]
    refine read_settles fun rest' hskip => ?_
    have hrest' := Source.length_add_two (Source.skipToClose_suffix hskip)
    cases helse : else? rest' with
    | none => exact .ok rfl
    | some otherwise =>
      have hotherwise := (else_suffix helse).length_le
      refine enter_bind_settles hinner hreads (by omega) fun outcome rest'' c₂ _ => ?_
      exact .ok rfl

/-- **The turns of a loop** lead behind its body. The induction is on the rounds that it may still
begin. -/
theorem loop_settles (hcs : cs.length < steps) (rounds left : Nat)
    (hrounds : rounds + left = maxRounds) :
    Settles setting program (enter stack ⟨block, cs, .loopTest rounds⟩ cs c)
      (fun rest c => .reading stack block rest c)
      (Part.located program ('%' :: 'L' :: cs) (loop inner cs left) c) := by
  induction left generalizing rounds c with
  | zero =>
    rw [loop_eq_rounds]
    refine enter_bind_settles hinner hreads hcs fun outcome rest c₁ hrest => ?_
    refine read_settles fun body hbody => ?_
    cases outcome.truth with
    | true =>
      simp only [if_true, show ¬rounds < maxRounds by omega, if_false]
      exact ⟨_, .refl _, .failed _ _ c₁⟩
    | false =>
      simp only [Bool.false_eq_true, if_false]
      rw [← bind_pure (Part.source (skipToClose body))]
      exact read_settles fun rest' _ => .ok rfl
  | succ left ih =>
    rw [loop_eq_rounds]
    refine enter_bind_settles hinner hreads hcs fun outcome rest c₁ hrest => ?_
    refine read_settles fun body hbody => ?_
    have hbody := Source.length_add_two (Source.expectOpen_suffix hbody)
    cases outcome.truth with
    | false =>
      simp only [Bool.false_eq_true, if_false]
      rw [← bind_pure (Part.source (skipToClose body))]
      exact read_settles fun rest' _ => .ok rfl
    | true =>
      simp only [if_true, show rounds < maxRounds by omega, located_bind, located_inner]
      refine Settles.head rfl ((hinner (by omega)).bind ?_)
      rintro ⟨result, rest'⟩ c₂ -
      refine Settles.head rfl ?_
      dsimp only [behind]
      by_cases hleave : result.signal = .leave
      · simp only [hleave, if_true]
        exact .ok rfl
      · simp only [hleave, if_false]
        exact ih (rounds + 1) (by omega)

/-- **The turns of a construct** lead to what it asks of its block. -/
theorem construct_settles (hcs : cs.length < steps) :
    Settles setting program (.reading stack block ('%' :: cs) c)
      (fun r c => flowed stack block ('%' :: cs) r.2 c r.1)
      (Part.located program ('%' :: cs)
        (construct setting inner block.isNested block.running cs) c) := by
  cases cs with
  | nil => exact ⟨_, Reaches.head rfl (.refl _), .failed _ _ c⟩
  | cons tag cs =>
    have hlength : cs.length < steps := Nat.lt_of_succ_lt hcs
    simp only [construct]
    split
    · rw [located_bind, located_inner]
      refine Settles.head rfl ((hinner hlength).bind ?_)
      rintro ⟨outcome, rest⟩ c' -
      refine Settles.head rfl (.ok ?_)
      cases hsignal : outcome.signal <;>
        simp [behind, onward, Running.after, hsignal, Signal.flow, flowed, Frame.construct,
          Purpose.tag]
    · refine Settles.head rfl ?_
      cases block.isNested with
      | true => exact .ok rfl
      | false => exact ⟨_, .refl _, .failed _ _ c⟩
    · refine Settles.head rfl (after_settles ?_)
      rintro ⟨running, rest⟩ c' -
      exact .ok rfl
    · exact call_settles
    · refine Settles.head rfl ?_
      rw [located_bind]
      refine (conditional_settles hinner hreads hlength).bind ?_
      rintro ⟨signal, rest⟩ c' -
      cases signal <;> exact .ok rfl
    · refine Settles.head rfl ?_
      rw [located_bind]
      refine (loop_settles hinner hreads hlength 0 maxRounds (Nat.zero_add _)).bind ?_
      exact fun rest c' _ => .ok rfl
    · exact Settles.head rfl (.ok rfl)
    · exact Settles.head rfl (.ok rfl)
    · have htag : tag ∉ ['(', ')', '?', 'P', 'I', 'L', 'Y', 'Z'] := by simp_all
      refine Settles.head (atConstruct_simple setting stack block c cs htag) ?_
      exact after_settles fun rest c' _ => .ok rfl

end Blocks

theorem open_suffix {body : List Char} (h : open? cs = some body) : '%' :: '(' :: body <:+ cs := by
  unfold open? at h
  split at h
  · exact Option.some.inj h ▸ List.suffix_refl _
  · exact absurd h (by simp)

/-- A block that is left early is skipped to its end if it is nested. -/
theorem endEarly_settles {construct rest : List Char} {signal : Signal} :
    Settles setting program (.leaving stack block construct signal rest c)
      (fun r c => .returned stack r.1 r.2 c)
      (endEarly program construct block.isNested block.running signal rest c) := by
  refine Settles.head rfl ?_
  unfold endEarly
  cases block.isNested with
  | false => exact .ok rfl
  | true =>
    simp only [if_true]
    cases skipToClose rest with
    | ok rest' => exact .ok rfl
    | error kind => exact ⟨_, .refl _, .failed kind construct c⟩

/-- **The turns of a block lead behind it**, to what running it gives with a number of steps above
the length of its text. -/
theorem block_settles (stack : Stack) (block : Block) {rest : List Char} (c : Context)
    (h : rest.length < steps) :
    Settles setting program (.reading stack block rest c) (fun r c => .returned stack r.1 r.2 c)
      (Script.block setting program steps block.isNested block.running rest c) := by
  induction steps generalizing stack block rest c with
  | zero => exact absurd h (Nat.not_lt_zero _)
  | succ steps ih =>
    have hinner : InnerSettles setting program steps (Script.block setting program steps true {}) :=
      fun {stack body c} hbody => ih stack { isNested := true } c hbody
    cases rest with
    | nil =>
      obtain ⟨isNested, running⟩ := block
      cases isNested with
      | true => exact ⟨_, .head rfl (.refl _), .failed .missingClose [] c⟩
      | false => exact .head rfl (.ok rfl)
    | cons char cs =>
      have hcs : cs.length < steps := Nat.lt_of_succ_lt_succ h
      rw [Script.block]
      cases hbreak : isBreak char with
      | true =>
        have hturn : next setting (.reading stack block (char :: cs) c) =
            some (.reading stack block (skipNewline (char :: cs)) c) := by
          rw [next, hbreak, if_pos rfl]
        have hskip := Source.length_skipNewline hbreak cs
        exact .head hturn (ih stack block c (Nat.lt_of_le_of_lt hskip hcs))
      | false =>
        rw [if_neg Bool.false_ne_true]
        by_cases hpercent : char = '%'
        · subst hpercent
          rw [if_pos rfl]
          refine (construct_settles hinner (readsBlocks_block setting program steps) hcs).bind ?_
          rintro ⟨flow, cs'⟩ c' hrun
          have hread := construct_suffix (readsBlocks_block setting program steps)
            (located_eq_ok.1 hrun)
          cases flow with
          | onward running =>
            exact ih stack { block with running } c' (Nat.lt_of_le_of_lt hread.1.length_le hcs)
          | close => exact .ok rfl
          | leave => exact endEarly_settles
          | again => exact endEarly_settles
        · have hturn : next setting (.reading stack block (char :: cs) c) =
              some (.reading stack block cs
                (c.pushChar setting (setting.charset.translate char))) := by
            rw [next, hbreak, if_neg Bool.false_ne_true, if_neg hpercent]
          rw [if_neg hpercent, bind_ok (modify_apply _ _)]
          exact .head hturn (ih stack block _ hcs)

/-- **The turns of a program over a data block lead to its result.** -/
theorem run_settles (setting : Setting) (program : String) (c : Context) :
    Settles setting program.toList (start program c) (fun outcome c => .done (.outcome outcome) c)
      (run setting program c) := by
  have hlength : (skipNewline program.toList).length < program.toList.length + 1 :=
    Nat.lt_succ_of_le (Source.reads_skipNewline _).suffix.length_le
  refine (block_settles .program { isNested := false } c hlength).bind ?_
  rintro ⟨outcome, rest⟩ c' -
  exact .head rfl (.ok rfl)

/-- The turns of a search at one address lead to the next. -/
theorem candidate_settles {seek : Seek} {count : Nat} (hcount : seek.count = count + 1)
    (htext : seek.text.length ≤ program.length) :
    Settles setting program (Stage.seek seek c)
      (fun found c => .seeking ({ seek with count }.next found) c)
      (candidate setting program seek.text
        (c.beginCandidate (UInt16.ofNat seek.address) seek.matched)) := by
  rw [Stage.seek, hcount, candidate_eq]
  cases hopen : open? seek.text with
  | none =>
    have hlength : seek.text.length < program.length + 1 := Nat.lt_succ_of_le htext
    refine (block_settles _ { isNested := false } _ hlength).bind ?_
    rintro ⟨outcome, rest⟩ c' -
    refine .head rfl (.ok ?_)
    simp [tested, hopen]
  | some body =>
    have hbody := Source.length_add_two (open_suffix hopen)
    refine (block_settles _ { isNested := true } _ (by omega)).bind ?_
    rintro ⟨outcome, rest⟩ c' hrun
    have hrest := Source.length_add_two (block_suffix hrun)
    refine .head rfl ?_
    dsimp only [tested]
    rw [hopen]
    cases outcome.truth with
    | false => exact .ok rfl
    | true =>
      cases haction : open? (skipLayout rest) with
      | none => exact .ok rfl
      | some action =>
        have haction := Source.length_add_two (open_suffix haction)
        have hlayout := (Source.skipLayout_suffix rest).length_le
        simp only [Option.isSome_some, Bool.and_self, if_true, Functor.discard, map_const,
          Function.comp_apply, map_eq_pure_bind, bind_assoc, pure_bind]
        refine (block_settles _ { isNested := true } _ (by omega)).bind ?_
        rintro ⟨result, rest'⟩ c'' -
        exact .head rfl (.ok rfl)

/-- The turns of a search over a number of addresses lead to the number of its matches. -/
theorem candidates_settles {text : List Char} (htext : text.length ≤ program.length)
    (count address : Nat) (matched : UInt16) (c : Context) :
    Settles setting program (.seeking ⟨text, count, address, matched⟩ c)
      (fun matched c => .done (.matches matched) c)
      (candidates setting program text count address matched c) := by
  induction count generalizing address matched c with
  | zero => exact .head rfl (.ok rfl)
  | succ count ih =>
    rw [candidates, bind_ok (modify_apply _ _)]
    refine Settles.head rfl ((candidate_settles rfl htext).bind fun found c' _ => ?_)
    exact ih (address + 1) (if found then matched + 1 else matched) c'

/-- **The turns of a program over a pattern block lead to the number of its matches.** -/
theorem runPattern_settles (setting : Setting) (program : String) (c : Context) :
    Settles setting program.toList (startPattern program c)
      (fun matched c => .done (.matches matched) c) (runPattern setting program c) := by
  have htext : (skipIndent (skipLayout program.toList)).length ≤ program.toList.length :=
    ((List.dropWhile_suffix _).trans (Source.skipLayout_suffix _)).length_le
  exact candidates_settles htext _ _ _ c

end Stage

end Script
end Disassembly
