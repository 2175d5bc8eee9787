/-
# Every script edits its context by what it sees

Each step that a script can take is `Scripted`, from the reading of a byte up to a whole program
that is run over a data block (`scripted_run`) or at every address of a pattern block
(`scripted_runPattern`). The steps without blocks in them are `Quiet`, except for the one that writes
an address (`quiet_simple`). The proofs follow the definitions of the steps, one for each.
-/

import Disassembly.Proofs.Numeral.ReadBack
import Disassembly.Proofs.Script.Edits
import Disassembly.Script.Eval

namespace Disassembly

namespace Script

variable {setting : Setting}

/-- A number of one digit names one of sixteen slots. -/
theorem Source.hex_one_lt {cs rest : List Char} {n : Nat} (h : Source.hex 1 cs = .ok (n, rest)) :
    n < 16 := by
  unfold Source.hex at h
  match cs with
  | [] => simp [Source.hexAfter] at h
  | c :: cs =>
    rw [Source.hexAfter] at h
    cases hd : Numeral.hexValue? c with
    | none => simp [hd] at h
    | some d =>
      simp only [hd, Source.hexAfter, Except.ok.injEq, Prod.mk.injEq] at h
      have := Numeral.hexValue?_lt hd
      omega

theorem quiet_readByte (address : Nat) : Quiet setting (Action.readByte setting address) := by
  unfold Action.readByte
  split
  · exact .pure _
  · exact .throw _

theorem quiet_readWord (address : Nat) : Quiet setting (Action.readWord setting address) := by
  refine .get (fun c => rfl) fun c => ?_
  split
  · exact .pure _
  · exact .throw _

theorem quiet_nextByte : Quiet setting (Action.nextByte setting) :=
  .get (fun _ => rfl) fun _ => .bind (quiet_readByte _) fun _ =>
    .bind (.modify [.advance 1] rfl fun _ => rfl) fun _ => .pure _

/-- Assigning to a slot fails in any context, or is one edit. -/
theorem assign_cases (setting : Setting) {slot : UInt8} (hslot : slot < 16) (value : UInt16) :
    (∃ kind, ∀ c : Context, c.assign slot value = .error kind) ∨
      ∃ e : Edit, e.isQuiet = true ∧
        ∀ c : Context, c.assign slot value = .ok (e.apply setting c) := by
  have hlow : ¬16 ≤ slot := by
    rw [UInt8.le_iff_toNat_le]
    rw [UInt8.lt_iff_toNat_lt] at hslot
    omega
  unfold Context.assign
  simp only [hlow, if_false]
  cases Slot.ofNat slot.toNat with
  | free i => exact .inr ⟨.setFree i value, rfl, fun c => rfl⟩
  | lineOffset => exact .inr ⟨.moveTo value, rfl, fun c => rfl⟩
  | blockEnd => exact .inr ⟨.setBlockEnd value, rfl, fun c => rfl⟩
  | _ => exact .inl ⟨_, fun c => rfl⟩

theorem quiet_assign {slot : UInt8} (hslot : slot < 16) (value : UInt16) :
    Quiet setting (Action.assign slot value) := by
  intro c c' _
  rw [assign_apply, assign_apply]
  obtain ⟨kind, h⟩ | ⟨e, hquiet, h⟩ := assign_cases setting hslot value
  · rw [h c, h c']
    exact ⟨[], .error kind, rfl, rfl, rfl⟩
  · rw [h c, h c']
    exact ⟨[e], .ok (), by rw [List.all_cons, hquiet]; rfl, rfl, rfl⟩

theorem quiet_evaluate (o : Operand) (width : Width) :
    Quiet setting (o.evaluate setting width) := by
  have hdone (n : UInt16) : Quiet setting
      (if o.advances then do modify (·.advance width.bytes); return n
        else return n : Action UInt16) :=
    .ite (.bind (.modify [.advance width.bytes] rfl fun _ => rfl) fun _ => .pure n) (.pure n)
  refine .get (fun _ => rfl) fun c => .ite (.pure _) ?_
  cases width with
  | byte => exact .bind (.map _ (quiet_readByte _)) hdone
  | word => exact .bind (quiet_readWord _) hdone

theorem quiet_float (o : Operand) : Quiet setting (o.float setting) := by
  refine .ite (.throw _) (.get (fun _ => rfl) fun c => ?_)
  refine .bind (quiet_readByte _) fun b0 => .bind (quiet_readByte _) fun b1 =>
    .bind (quiet_readByte _) fun b2 => .bind (quiet_readByte _) fun b3 =>
    .bind (quiet_readByte _) fun b4 => .ite ?_ (.pure _)
  exact .bind (.modify [.advance 5] rfl fun _ => rfl) fun _ => .pure _

theorem quiet_value (cs : List Char) : Quiet setting (value setting cs) :=
  .bind (.ofExcept _) fun _ => .bind (quiet_evaluate _ _) fun _ => .pure _

theorem quiet_pushNumber (n : Nat) (width : Width) (signed : Bool) :
    Quiet setting (pushNumber setting n width signed) := by
  change Quiet setting (get >>= fun c => modify (·.pushText setting
    (Numeral.operand n width c.format.base signed)) : Action Unit)
  exact .get (fun _ => rfl) fun c => .modify [.pushText _] rfl fun _ => rfl

theorem quiet_number (width : Width) (cs : List Char) :
    Quiet setting (number setting width cs) :=
  .bind (.ofExcept _) fun _ => .bind (quiet_evaluate _ _) fun _ =>
    .get (fun _ => rfl) fun _ => .bind (quiet_pushNumber _ _ _) fun _ => .pure _

theorem scripted_address (cs : List Char) : Scripted setting (address setting cs) :=
  .bind (.ofExcept _) fun _ => .bind (quiet_evaluate _ _).scripted fun n =>
    .bind (.modify [.recordReference n] rfl fun _ => rfl) fun _ =>
    .bind (quiet_pushNumber _ _ _).scripted fun _ => .pure _

theorem quiet_character (cs : List Char) : Quiet setting (character setting cs) := by
  refine .bind (.ofExcept _) fun _ => .bind (quiet_evaluate _ _) fun n => ?_
  dsimp only
  split
  · exact .bind (.modify [.pushText _] rfl fun _ => rfl) fun _ => .pure _
  · exact .bind (.modify [.pushText _] rfl fun _ => rfl) fun _ => .pure _
  · exact .bind (.modify [.pushText _] rfl fun _ => rfl) fun _ => .pure _
  · exact .bind (quiet_pushNumber _ _ _) fun _ => .pure _
  · exact .bind (quiet_pushNumber _ _ _) fun _ => .pure _

theorem quiet_numberFormat (cs : List Char) : Quiet setting (numberFormat setting cs) :=
  .bind (.ofExcept _) fun _ => .bind (.modify [.setFormat _] rfl fun _ => rfl) fun _ => .pure _

/-- A slot that is named by a number below sixteen is one of the sixteen. -/
theorem ofNat_lt_sixteen {n : Nat} (h : n < 16) : UInt8.ofNat n < 16 := by
  rw [UInt8.lt_iff_toNat_lt, UInt8.toNat_ofNat']
  exact Nat.lt_of_le_of_lt (Nat.mod_le _ _) h

theorem quiet_arithmetic (cs : List Char) : Quiet setting (arithmetic setting cs) := by
  refine .bind (.ofExcept _) fun ⟨operation, cs⟩ => .ofExcept_bind fun ⟨slot, cs⟩ hslot => ?_
  have hlow := ofNat_lt_sixteen (Source.hex_one_lt hslot)
  refine .ite (.throw _) (.bind (quiet_value _) fun ⟨a, cs⟩ => .ite ?_ ?_)
  · exact .bind (quiet_assign hlow a) fun _ => .pure _
  · refine .bind (quiet_value _) fun ⟨b, cs⟩ => ?_
    dsimp only
    split
    · exact .bind (quiet_assign hlow _) fun _ => .pure _
    · exact .throw_bind _ _

theorem quiet_commentText (source : Char) (cs : List Char) :
    Quiet setting (commentText source cs) := by
  unfold commentText
  split
  · exact .get (fun _ => rfl) fun _ => .bind (.modify [.dropLine] rfl fun _ => rfl) fun _ => .pure _
  · exact .pure _
  · exact .throw _

theorem quiet_comment (cs : List Char) : Quiet setting (comment setting cs) := by
  refine .bind (.ofExcept _) fun _ => .bind (.ofExcept _) fun _ => ?_
  dsimp only
  split
  · refine .bind (.pure _) fun _ => .bind (.ofExcept _) fun _ => .bind (quiet_value _) fun _ =>
      .bind (quiet_value _) fun _ => ?_
    split
    · exact .throw _
    · exact .bind (quiet_commentText _ _) fun _ =>
        .bind (.modify [.insert _ rfl] rfl fun _ => rfl) fun _ => .pure _
    · exact .bind (quiet_value _) fun _ => .bind (quiet_commentText _ _) fun _ =>
        .bind (.modify [.insert _ rfl] rfl fun _ => rfl) fun _ => .pure _
    · exact .bind (quiet_value _) fun _ => .bind (quiet_commentText _ _) fun _ =>
        .bind (.modify [.insert _ rfl] rfl fun _ => rfl) fun _ => .pure _
  · exact .throw_bind _ _

theorem quiet_dataBlock (cs : List Char) : Quiet setting (dataBlock setting cs) :=
  .bind (quiet_value _) fun _ => .bind (quiet_value _) fun _ => .bind (.ofExcept _) fun _ =>
    .bind (.modify [.insert _ rfl] rfl fun _ => rfl) fun _ => .pure _

/-- **Simple constructs edit the context by what they see, and record no reference**, unless they
write an address. -/
theorem quiet_simple {tag : Char} (htag : tag ≠ 'A') (cs : List Char) :
    Quiet setting (simple setting tag cs) := by
  have hmodify (edits : List Edit) {f : Context → Context}
      (hquiet : edits.all Edit.isQuiet = true)
      (hf : ∀ c, f c = Edit.applyAll setting edits c) :
      Quiet setting (do modify f; return cs : Action (List Char)) :=
    .bind (.modify edits hquiet hf) fun _ => .pure cs
  unfold simple
  split
  · exact hmodify [.pushText _] rfl fun _ => rfl
  · exact .pure _
  · exact quiet_numberFormat cs
  · exact quiet_number .byte cs
  · exact quiet_number .word cs
  · exact absurd rfl htag
  · exact quiet_character cs
  · exact .bind (.ofExcept _) fun _ => .bind (quiet_float _) fun text =>
      .bind (.modify [.pushText text] rfl fun _ => rfl) fun _ => .pure _
  · exact quiet_arithmetic cs
  · exact hmodify [.startLine] rfl fun _ => rfl
  · exact hmodify [.endLine] rfl fun _ => rfl
  · exact hmodify [.endBlockHere, .endLine] rfl fun _ => rfl
  · exact hmodify [.pushText _] rfl fun _ => rfl
  · exact quiet_comment cs
  · exact quiet_dataBlock cs
  · exact .throw _

theorem scripted_simple (tag : Char) (cs : List Char) :
    Scripted setting (simple setting tag cs) := by
  by_cases htag : tag = 'A'
  · subst htag
    exact scripted_address cs
  · exact (quiet_simple htag cs).scripted

end Script

namespace Routine

open Script

variable {setting : Setting}

theorem quiet_findBytes (a : Arguments) : Quiet setting (findBytes setting a) := by
  refine .bind (.ofExcept _) fun text => ?_
  dsimp only
  split
  · refine .bind (.pure _) fun pattern => .bind (.ofExcept _) fun _ =>
      .bind (.ofExcept _) fun _ => ?_
    split
    · refine .bind (.pure _) fun position => .get (fun _ => rfl) fun c => ?_
      split
      · exact .bind (.modify [.insert _ rfl] rfl fun _ => rfl) fun _ => .pure _
      · exact .bind (.pure _) fun _ => .pure _
    · exact .throw_bind _ _
  · exact .throw_bind _ _

/-- A count is at most the highest allowed. -/
theorem count_le {a : Arguments} {name : String} {index n : Nat} {default max : Int}
    (h : a.count name index default max = .ok n) : (n : Int) ≤ max := by
  unfold Arguments.count at h
  cases hint : a.int name index default with
  | error kind => simp [hint, bind, Except.bind] at h
  | ok k =>
    simp only [hint, bind, Except.bind] at h
    split at h
    · simp [Arguments.error] at h
    · have hk : k.toNat = n := Except.ok.inj h
      omega

theorem quiet_offsetRange (a : Arguments) : Quiet setting (offsetRange a) := by
  refine .bind (.ofExcept _) fun first => .bind (.ofExcept _) fun last =>
    .ofExcept_bind fun intoFirst hfirst => .ofExcept_bind fun intoLast hlast => ?_
  have hfirst := count_le hfirst
  have hlast := count_le hlast
  exact .get (fun _ => rfl) fun c =>
    .bind (quiet_assign (ofNat_lt_sixteen (by omega)) _) fun _ =>
    .bind (quiet_assign (ofNat_lt_sixteen (by omega)) _) fun _ => .pure _

theorem quiet_byteItem (base : Base) (signed : Bool) :
    Quiet setting (byteItem setting base signed) :=
  .bind quiet_nextByte fun _ => .pure _

theorem quiet_wordItem (base : Base) (signed bigEndian : Bool) :
    Quiet setting (wordItem setting base signed bigEndian) :=
  .bind quiet_nextByte fun _ => .bind quiet_nextByte fun _ => .pure _

theorem Dump.quiet_items {d : Dump} (hitem : Quiet setting d.item) (fuel index : Nat) :
    Quiet setting (d.items setting fuel index) := by
  induction fuel generalizing index with
  | zero => exact .throw _
  | succ fuel ih =>
    refine .get (fun _ => rfl) fun c => .ite (.bind hitem fun text => ?_) (.pure _)
    exact .bind (.modify [.pushText _, .pushText text] rfl fun _ => rfl) fun _ => ih _

theorem Dump.quiet_lines {d : Dump} (hitem : Quiet setting d.item) (fuel : Nat) :
    Quiet setting (d.lines setting fuel) := by
  induction fuel with
  | zero => exact .throw _
  | succ fuel ih =>
    refine .get (fun _ => rfl) fun c => .ite ?_ (.pure _)
    exact .bind (.modify [.startLine, .pushText _, .pushText _] rfl fun _ => rfl) fun _ =>
      .bind (Dump.quiet_items hitem limit 0) fun _ =>
      .bind (.modify [.endLine] rfl fun _ => rfl) fun _ => ih

theorem quiet_byteDump (a : Arguments) : Quiet setting (byteDump setting a) :=
  .get (fun _ => rfl) fun _ => .bind (.ofExcept _) fun _ => .bind (.ofExcept _) fun _ =>
    .bind (.ofExcept _) fun _ => .bind (.ofExcept _) fun _ => .bind (.ofExcept _) fun _ =>
    Dump.quiet_lines (quiet_byteItem _ _) Dump.limit

theorem quiet_wordDump (a : Arguments) : Quiet setting (wordDump setting a) := by
  refine .get (fun _ => rfl) fun _ => .bind (.ofExcept _) fun _ => .bind (.ofExcept _) fun _ =>
    .bind (.ofExcept _) fun _ => .bind (.ofExcept _) fun _ => .bind (.ofExcept _) fun _ =>
    .bind (.ofExcept _) fun _ =>
    .bind (Dump.quiet_lines (quiet_wordItem _ _ _) Dump.limit) fun _ =>
    .get (fun _ => rfl) fun _ => .ite (.bind (quiet_byteItem _ _) fun text => ?_) (.pure _)
  exact .modify [.startLine, .pushText _, .pushText _, .pushText text, .endLine] rfl fun _ => rfl

namespace Message

theorem quiet_flush (style : Style) (d : Draft) : Quiet setting (style.flush setting d) :=
  .ite (.pure _)
    (.modify [.startLine, .pushText _, .pushText _, .pushText _, .endLine] rfl fun _ => rfl)

theorem quiet_nextByte (style : Style) (d : Draft) :
    Quiet setting (style.nextByte setting d) := by
  refine .bind (.ite ?_ (.pure _)) fun d => .bind Script.quiet_nextByte fun _ => .pure _
  exact .bind (quiet_flush style d) fun _ => .pure _

theorem quiet_body (style : Style) (count parameters : Nat) (d : Draft) :
    Quiet setting (style.body setting count parameters d) := by
  induction count generalizing parameters d with
  | zero => exact .pure _
  | succ count ih =>
    refine .bind (quiet_nextByte style d) fun _ => ?_
    dsimp only
    split
    · exact ih _ _
    · split
      · exact ih _ _
      · exact ih _ _
      · exact ih _ _

theorem quiet_findEnd (ends : UInt8 → Bool) (address count index parameters : Nat) :
    Quiet setting (findEnd setting ends address count index parameters) := by
  induction count generalizing index parameters with
  | zero => exact .pure _
  | succ count ih =>
    refine .bind (quiet_readByte _) fun b => ?_
    split
    · exact ih _ _
    · refine .ite (.pure _) ?_
      split
      · exact ih _ _
      · exact ih _ _

theorem quiet_lengthUpTo (ends : UInt8 → Bool) : Quiet setting (lengthUpTo setting ends) := by
  refine .get (fun _ => rfl) fun c => .bind (quiet_findEnd _ _ _ _ _) fun found => ?_
  split
  · exact .pure _
  · exact .pure _

theorem quiet_terminated (style : Style) (ends : UInt8 → Bool) (last : Draft → UInt8 → Draft) :
    Quiet setting (terminated setting style ends last) :=
  .bind (quiet_lengthUpTo ends) fun _ => .bind (quiet_body _ _ _ _) fun d =>
    .ite (.bind (quiet_nextByte style d) fun _ =>
      .bind (.modify [.endBlockHere] rfl fun _ => rfl) fun _ => .pure _) (.pure d)

theorem quiet_counted (style : Style) (length : Nat) (width : Width) :
    Quiet setting (counted setting style length width) :=
  .bind (quiet_body _ _ _ _) fun _ => .bind (.modify [.endBlockHere] rfl fun _ => rfl) fun _ =>
    .pure _

theorem quiet_run (style : Style) (terminator : Terminator) :
    Quiet setting (run setting style terminator) := by
  unfold run
  cases terminator with
  | raw => exact .get (fun _ => rfl) fun _ => .bind (quiet_body _ _ _ _) (quiet_flush style)
  | zero => exact .bind (quiet_terminated _ _ _) (quiet_flush style)
  | highBit => exact .bind (quiet_terminated _ _ _) (quiet_flush style)
  | lengthByte =>
    exact .bind Script.quiet_nextByte fun _ =>
      .bind (quiet_counted _ _ _) (quiet_flush style)
  | lengthWord =>
    exact .bind Script.quiet_nextByte fun _ => .bind Script.quiet_nextByte fun _ =>
      .bind (quiet_counted _ _ _) (quiet_flush style)
  | lengthWordBigEndian =>
    exact .bind Script.quiet_nextByte fun _ => .bind Script.quiet_nextByte fun _ =>
      .bind (quiet_counted _ _ _) (quiet_flush style)

end Message

theorem quiet_messageDump (a : Arguments) : Quiet setting (messageDump setting a) := by
  refine .bind (.ofExcept _) fun name => ?_
  dsimp only
  split
  · exact .bind (.pure _) fun _ => .bind (.ofExcept _) fun _ => .bind (.ofExcept _) fun _ =>
      .get (fun _ => rfl) fun _ => Message.quiet_run _ _
  · exact .throw_bind _ _

/-- **Routines edit the context by what they see, and record no reference.** -/
theorem quiet_call (name arguments : String) :
    Quiet setting (call setting name arguments) := by
  refine .bind (.ofExcept _) fun a => ?_
  split
  · exact .bind (quiet_byteDump a) fun _ => .pure _
  · exact .bind (quiet_wordDump a) fun _ => .pure _
  · exact .bind (quiet_messageDump a) fun _ => .pure _
  · exact .bind (quiet_findBytes a) fun _ => .pure _
  · exact .bind (quiet_offsetRange a) fun _ => .pure _
  · exact .throw _

end Routine

namespace Script

variable {setting : Setting} {ε α : Type}

theorem scripted_own {x : Action α} (hx : Scripted setting x) : Scripted setting (Part.own x) :=
  hx.mapError (fun kind _ => .own kind) (fun _ _ => rfl) fun c => by
    unfold Part.own EStateM.adaptExcept
    cases x c <;> rfl

theorem scripted_source (r : Except ErrorKind α) : Scripted setting (Part.source r) :=
  scripted_own (.ofExcept r)

theorem scripted_inner {x : Run α} (hx : Scripted setting x) : Scripted setting (Part.inner x) :=
  hx.mapError (fun error _ => .inner error) (fun _ _ => rfl) fun c => by
    unfold Part.inner EStateM.adaptExcept
    cases x c <;> rfl

/-- The place of an error is seen, so errors are placed alike. -/
theorem scripted_located (program rest : List Char) {x : Part α} (hx : Scripted setting x) :
    Scripted setting (Part.located program rest x) :=
  hx.mapError
    (fun
      | .own kind, c => locate program rest kind c.currentAddress
      | .inner error, _ => error)
    (fun fault c => by cases fault <;> rfl) fun c => by
    unfold Part.located
    cases x c with
    | ok a c => rfl
    | error fault c => cases fault <;> rfl

theorem scripted_fail (program rest : List Char) (kind : ErrorKind) :
    Scripted setting (Run.fail program rest kind : Run α) :=
  scripted_located program rest (x := throw (.own kind)) (.throw _)

section Blocks

variable {inner : Inner} (hinner : ∀ cs, Scripted setting (inner cs))
include hinner

theorem scripted_nested (cs : List Char) : Scripted setting (nested inner cs) :=
  .bind (scripted_source _) fun cs => scripted_inner (hinner cs)

theorem scripted_nestedIf (condition : Bool) (cs : List Char) :
    Scripted setting (nestedIf inner condition cs) :=
  .bind (scripted_source _) fun cs =>
    .ite (.bind (scripted_inner (hinner cs)) fun _ => .pure _)
      (.bind (scripted_source _) fun _ => .pure _)

theorem scripted_conditional (cs : List Char) : Scripted setting (conditional inner cs) := by
  refine .bind (scripted_nested hinner cs) fun _ => .bind (scripted_nestedIf hinner _ _) fun _ => ?_
  dsimp only
  split
  · exact .bind (scripted_nestedIf hinner _ _) fun _ => .pure _
  · exact .pure _

theorem scripted_loopTest (test : List Char) : Scripted setting (loopTest inner test) :=
  .bind (scripted_nested hinner test) fun _ => .bind (scripted_source _) fun _ =>
    .ite (.pure _) (.bind (scripted_source _) fun _ => .pure _)

theorem scripted_loop (test : List Char) (rounds : Nat) :
    Scripted setting (loop inner test rounds) := by
  induction rounds with
  | zero => exact .bind (scripted_loopTest hinner test) fun _ => .ite (.throw _) (.pure _)
  | succ rounds ih =>
    refine .bind (scripted_loopTest hinner test) fun _ => .ite ?_ (.pure _)
    exact .bind (scripted_inner (hinner _)) fun _ => .ite (.pure _) ih

end Blocks

theorem quiet_comparison (running : Running) (cs : List Char) :
    Quiet setting (comparison setting running cs) :=
  .bind (.ofExcept _) fun _ => .ite (.bind (.ofExcept _) fun _ => .pure _)
    (.bind (.ofExcept _) fun _ => .ite (.pure _) (.bind (quiet_evaluate _ _) fun _ =>
      .bind (quiet_evaluate _ _) fun _ => .pure _))

theorem quiet_call (running : Running) (cs : List Char) :
    Quiet setting (call setting running cs) := by
  refine .bind (.ofExcept _) fun _ => .bind (Routine.quiet_call _ _) fun result => ?_
  cases result with
  | none => exact .pure _
  | some truth => exact .pure _

/-- **A construct edits the context by what it sees, if the blocks inside it do.** -/
theorem scripted_construct {inner : Inner} (hinner : ∀ cs, Scripted setting (inner cs))
    (isNested : Bool) (running : Running) (cs : List Char) :
    Scripted setting (construct setting inner isNested running cs) := by
  cases cs with
  | nil => exact .throw _
  | cons tag cs =>
    simp only [construct]
    split
    · exact .bind (scripted_inner (hinner cs)) fun _ => .pure _
    · exact .ite (.pure _) (.throw _)
    · exact .bind (scripted_own (quiet_comparison running cs).scripted) fun _ => .pure _
    · exact .bind (scripted_own (quiet_call running cs).scripted) fun _ => .pure _
    · exact .bind (scripted_conditional hinner cs) fun _ => .pure _
    · exact .bind (scripted_loop hinner cs maxRounds) fun _ => .pure _
    · exact .pure _
    · exact .pure _
    · exact .bind (scripted_own (scripted_simple _ cs)) fun _ => .pure _

theorem scripted_endEarly (program rest : List Char) (isNested : Bool) (running : Running)
    (signal : Signal) (cs : List Char) :
    Scripted setting (endEarly program rest isNested running signal cs) := by
  unfold endEarly
  split
  · split
    · exact .pure _
    · exact scripted_fail _ _ _
  · exact .pure _

/-- **A block edits the context by what it sees**, whatever it holds. The induction is on the steps,
which also bound how deep blocks are nested. -/
theorem scripted_block (program : List Char) (steps : Nat) (isNested : Bool) (running : Running)
    (rest : List Char) : Scripted setting (block setting program steps isNested running rest) := by
  induction steps generalizing isNested running rest with
  | zero => exact scripted_fail _ _ _
  | succ steps ih =>
    cases rest with
    | nil => exact .ite (scripted_fail _ _ _) (.pure _)
    | cons c cs =>
      refine .ite (ih _ _ _) (.ite ?_ ?_)
      · refine .bind (scripted_located _ _ (scripted_construct (ih true {}) isNested running cs))
          fun ⟨flow, cs'⟩ => ?_
        cases flow with
        | onward running => exact ih _ _ _
        | close => exact .pure _
        | leave => exact scripted_endEarly _ _ _ _ _ _
        | again => exact scripted_endEarly _ _ _ _ _ _
      · exact .bind (.modify [.pushText _] rfl fun _ => rfl) fun _ => ih _ _ _

/-- **A program that is run over a data block edits the context by what it sees.** -/
theorem scripted_run (setting : Setting) (program : String) :
    Scripted setting (run setting program) :=
  .bind (scripted_block _ _ _ _ _) fun _ => .pure _

theorem scripted_candidate (program test : List Char) :
    Scripted setting (candidate setting program test) := by
  unfold candidate
  split
  · refine .bind (scripted_block _ _ _ _ _) fun _ => .ite ?_ (.pure _)
    split
    · exact .bind (.map _ (scripted_block _ _ _ _ _)) fun _ => .pure _
    · exact .bind (.pure _) fun _ => .pure _
  · exact .bind (scripted_block _ _ _ _ _) fun _ => .pure _

theorem scripted_candidates (program test : List Char) (count address : Nat) (matched : UInt16) :
    Scripted setting (candidates setting program test count address matched) := by
  induction count generalizing address matched with
  | zero => exact .pure _
  | succ count ih =>
    exact .bind (.modify [.beginCandidate _ matched] rfl fun _ => rfl) fun _ =>
      .bind (scripted_candidate program test) fun _ => ih _ _

/-- **A program that is run at every address of a pattern block edits the context by what it sees.**
-/
theorem scripted_runPattern (setting : Setting) (program : String) :
    Scripted setting (runPattern setting program) :=
  .get (fun _ => rfl) fun _ => scripted_candidates _ _ _ _ _

end Script
end Disassembly
