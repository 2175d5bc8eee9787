/-
# Dumps written as programs

A script can dump bytes with loops of its own: an outer one that begins a line as long as the current
address is not behind the block, and an inner one that adds bytes as long as the line has fewer than
eight. Such a program does what the routine for dumps does (`programs_agree`): its lines are the rows
of the routine, one for each round of the outer loop (`loopEnds_rows`), and the items of a row come
from the inner loop (`loopEnds_items`). No block has as many bytes as a loop may have rounds.
-/

import Disassembly.Preset
import Disassembly.Proofs.Routine.BlockDump
import Disassembly.Proofs.Script.Ending

namespace Disassembly

/-- Literal characters that a character set leaves as they are. -/
def CharacterSet.Keeps (charset : CharacterSet) (chars : List Char) : Prop :=
  ∀ ch ∈ chars, charset.translate ch = ch

namespace Script

open Routine

variable {setting : Setting} {program cs rest : List Char} {c : Context} {bytes : List UInt8}
  {text : String} {n : Nat}

/-! ### The constructs of the programs -/

/-- The byte at the current address is read, and the current address moves past it. -/
theorem evaluate_here {b : UInt8} (hbyte : setting.image.byte? c.currentAddress.toNat = some b) :
    (⟨0x2F, none⟩ : Operand).evaluate setting .byte c = .ok b.toUInt16 (c.advance 1) := by
  have hread : Action.readByte setting c.currentAddress.toNat = pure b := by
    rw [Action.readByte, hbyte]
  change ((UInt8.toUInt16 <$> Action.readByte setting c.currentAddress.toNat) >>= fun n =>
    modify (·.advance 1) >>= fun _ => pure n) c = _
  rw [hread]
  rfl

/-- `%B2F` writes the byte at the current address as a number, and moves past it. -/
theorem simple_readByte {b : UInt8} (hbyte : setting.image.byte? c.currentAddress.toNat = some b)
    (cs : List Char) :
    simple setting 'B' ('2' :: 'F' :: cs) c =
      .ok cs ((c.advance 1).pushText setting
        (Numeral.operand b.toNat .byte c.format.base c.format.signed)) := by
  have hread : Operand.read ('2' :: 'F' :: cs) = .ok (⟨0x2F, none⟩, cs) := rfl
  change number setting .byte ('2' :: 'F' :: cs) c = _
  rw [number, hread, ofExcept_ok, bind_ok (pure_apply _ _)]
  simp only
  rw [bind_ok (evaluate_here hbyte), bind_ok (get_apply _), UInt8.toNat_toUInt16]
  rfl

/-- `%B2F` writes the next byte of the block as a number. -/
theorem simple_nextByte {b : UInt8} (hfaces : c.Faces setting bytes) (hb : bytes[n]? = some b)
    (cs : List Char) :
    simple setting 'B' ('2' :: 'F' :: cs) (c.drafted setting text n) =
      .ok cs (c.drafted setting
        (text ++ Numeral.operand b.toNat .byte c.format.base c.format.signed) (n + 1)) := by
  have hn : n < bytes.length := (List.getElem?_eq_some_iff.1 hb).1
  have hbyte : setting.image.byte? (c.drafted setting text n).currentAddress.toNat = some b := by
    change setting.image.byte? (c.lineStart + UInt16.ofNat n).toNat = some b
    rw [hfaces.toNat_add (Nat.le_of_lt hn)]
    exact hfaces.byte?_of_getElem? hb
  rw [simple_readByte hbyte]
  simp only [Context.drafted, Context.advance, Context.pushText, UInt16.ofNat_add]

/-- The current address is in the block as long as bytes are left. -/
theorem currentAddress_le_iff (hfaces : c.Faces setting bytes) (hn : n ≤ bytes.length) :
    (c.drafted setting text n).currentAddress ≤ c.blockEnd ↔ n < bytes.length := by
  have hlength := hfaces.length
  have hadd := hfaces.toNat_add hn
  change c.lineStart + UInt16.ofNat n ≤ c.blockEnd ↔ _
  rw [UInt16.le_iff_toNat_le, hadd]
  omega

/-- `%?LE8F8E` tests whether the current address is in the block. -/
theorem comparison_block (cs : List Char) (c : Context) :
    comparison setting {} ('L' :: 'E' :: '8' :: 'F' :: '8' :: 'E' :: cs) c =
      .ok ({ truth := decide (c.currentAddress ≤ c.blockEnd), tested := true }, cs) c := by
  have hrelation : relation 'L' ('E' :: '8' :: 'F' :: '8' :: 'E' :: cs) =
      .ok (.le, ⟨0x8F, none⟩, ⟨0x8E, none⟩, cs) := rfl
  exact comparison_eq (by decide) hrelation rfl rfl

/-- `%?LT8CC00008` tests whether the line has fewer than eight bytes, if that is not settled. -/
theorem comparison_eight (truth : Bool) (cs : List Char) (c : Context) :
    comparison setting { truth, tested := true }
        ('L' :: 'T' :: '8' :: 'C' :: 'C' :: '0' :: '0' :: '0' :: '0' :: '8' :: cs) c =
      .ok ({ truth := truth && decide (c.lineOffset < 8), tested := true }, cs) c := by
  have hrelation :
      relation 'L' ('T' :: '8' :: 'C' :: 'C' :: '0' :: '0' :: '0' :: '0' :: '8' :: cs) =
        .ok (.lt, ⟨0x8C, none⟩, ⟨0xC0, some 8⟩, cs) := rfl
  rw [comparison_eq (by decide) hrelation rfl rfl]
  cases truth <;> rfl

/-- The test of the outer loop: bytes are left. -/
theorem ends_blockTest (rest : List Char) (c : Context) :
    Ends setting program true {}
      ('%' :: '?' :: 'L' :: 'E' :: '8' :: 'F' :: '8' :: 'E' :: '%' :: ')' :: rest) c
      ⟨decide (c.currentAddress ≤ c.blockEnd), .onward⟩ rest c :=
  Ends.comparison (comparison_block _ c) (by simp) (ends_close setting program _ rest c)

/-- The test of the inner loop: bytes are left, and the line has room for one. -/
theorem ends_itemTest (rest : List Char) (c : Context) :
    Ends setting program true {}
      ('%' :: '?' :: 'L' :: 'E' :: '8' :: 'F' :: '8' :: 'E' :: '%' :: '?' :: 'L' :: 'T' :: '8' ::
        'C' :: 'C' :: '0' :: '0' :: '0' :: '0' :: '8' :: '%' :: ')' :: rest) c
      ⟨decide (c.currentAddress ≤ c.blockEnd) && decide (c.lineOffset < 8), .onward⟩ rest c :=
  Ends.comparison (comparison_block _ c) (by simp)
    (Ends.comparison (comparison_eight _ _ c) (by simp) (ends_close setting program _ rest c))

/-! ### The items of a line -/

/-- The inner loop, from its test on: `%(%?LE8F8E%?LT8CC00008%)%(,%B2F%)`. -/
def itemLoop (rest : List Char) : List Char :=
  '%' :: '(' :: '%' :: '?' :: 'L' :: 'E' :: '8' :: 'F' :: '8' :: 'E' :: '%' :: '?' :: 'L' :: 'T' ::
    '8' :: 'C' :: 'C' :: '0' :: '0' :: '0' :: '0' :: '8' :: '%' :: ')' :: '%' :: '(' :: ',' ::
    '%' :: 'B' :: '2' :: 'F' :: '%' :: ')' :: rest

/-- A byte in the number format of the script. -/
def formatByte (c : Context) (b : UInt8) : String :=
  Numeral.operand b.toNat .byte c.format.base c.format.signed

/-- The next block has its bracket in front. -/
theorem expectOpen_open (cs : List Char) : Source.expectOpen ('%' :: '(' :: cs) = .ok cs := rfl

/-- **The inner loop adds the bytes of a line**, up to eight or to the end of the block. -/
theorem loopEnds_items (program rest : List Char) (hcomma : setting.charset.translate ',' = ',')
    (hfaces : c.Faces setting bytes) (us : List UInt8) :
    ∀ (n rounds : Nat) (text : String) (more : List UInt8), bytes.drop n = us ++ more → 1 ≤ n →
      n + us.length ≤ 8 → (more = [] ∨ n + us.length = 8) → n ≤ bytes.length → us.length ≤ rounds →
      LoopEnds setting program rounds (itemLoop rest) (c.drafted setting text n) rest
        (c.drafted setting (text ++ Dump.itemsText 0 n (us.map (formatByte c))) (n + us.length)) := by
  have hoffset (n : Nat) (text : String) (hn : n ≤ 8) :
      (c.drafted setting text n).lineOffset < 8 ↔ n < 8 := by
    change UInt16.ofNat n < 8 ↔ _
    rw [UInt16.lt_iff_toNat_lt, UInt16.toNat_ofNat', Nat.mod_eq_of_lt (by omega)]
    rfl
  induction us with
  | nil =>
    intro n rounds text more hdrop hn hfull hend hlength _
    have hskip : Source.skipToClose (',' :: '%' :: 'B' :: '2' :: 'F' :: '%' :: ')' :: rest) =
      .ok rest := rfl
    rw [List.map_nil, Dump.itemsText, String.append_empty, List.length_nil, Nat.add_zero]
    refine LoopEnds.done (expectOpen_open _) (by simp [itemLoop]) (ends_itemTest _ _) ?_
      (expectOpen_open _) hskip
    -- one of the two comparisons fails: the block or the line has come to its end
    have hdone : ¬(n < bytes.length ∧ n < 8) := by
      have := congrArg List.length hdrop
      simp only [List.length_drop, List.length_append, List.length_nil] at this hfull hend
      rcases hend with rfl | hend
      · simp at this
        omega
      · omega
    change (decide ((c.drafted setting text n).currentAddress ≤ c.blockEnd) && _) = false
    rw [← Bool.decide_and, decide_eq_false_iff_not, currentAddress_le_iff hfaces hlength,
      hoffset n text hfull]
    exact hdone
  | cons u us ih =>
    intro n rounds text more hdrop hn hfull hend hlength hrounds
    obtain ⟨rounds, rfl⟩ : ∃ k, rounds = k + 1 := ⟨rounds - 1, by simp at hrounds; omega⟩
    have hb : bytes[n]? = some u := by
      rw [← Nat.add_zero n, ← List.getElem?_drop, hdrop]
      rfl
    have hrest : bytes.drop (n + 1) = us ++ more := by
      rw [← List.drop_drop, hdrop]
      rfl
    have hn' : n < bytes.length := (List.getElem?_eq_some_iff.1 hb).1
    rw [List.length_cons] at hfull hend hrounds
    have htest : (decide ((c.drafted setting text n).currentAddress ≤ c.blockEnd) &&
        decide ((c.drafted setting text n).lineOffset < 8)) = true := by
      rw [← Bool.decide_and, decide_eq_true_iff, currentAddress_le_iff hfaces hlength,
        hoffset n text (by omega)]
      omega
    have hround : Ends setting program true {}
        (',' :: '%' :: 'B' :: '2' :: 'F' :: '%' :: ')' :: rest) (c.drafted setting text n)
        ⟨true, .onward⟩ rest (c.drafted setting (text ++ "," ++ formatByte c u) (n + 1)) := by
      refine Ends.literal (by decide) (by decide) ?_
      rw [hcomma]
      exact Ends.simple (by decide) (simple_nextByte hfaces hb _) (by simp)
        (ends_close setting program _ rest _)
    have hmore := ih (n + 1) rounds (text ++ "," ++ formatByte c u) more hrest (by omega) (by omega)
      (hend.imp_right (by omega)) hn' (by omega)
    have htext : text ++ Dump.itemsText 0 n ((u :: us).map (formatByte c)) =
        text ++ "," ++ formatByte c u ++ Dump.itemsText 0 (n + 1) (us.map (formatByte c)) := by
      rw [List.map_cons, Dump.itemsText, Dump.itemSeparator, if_neg (by omega), if_neg (by omega)]
      simp only [String.append_assoc]
    rw [htext, List.length_cons, ← Nat.add_assoc, Nat.add_right_comm]
    exact LoopEnds.round (expectOpen_open _) (by simp [itemLoop]) (ends_itemTest _ _) htest
      (expectOpen_open _) (by simp [itemLoop]) hround (by decide) hmore

/-! ### The lines of a block -/

/-- The outer loop with a body, from its test on: `%(%?LE8F8E%)%(` and the body. -/
def blockLoop (body : List Char) : List Char :=
  '%' :: '(' :: '%' :: '?' :: 'L' :: 'E' :: '8' :: 'F' :: '8' :: 'E' :: '%' :: ')' :: '%' :: '(' ::
    body

/-- A body writes rows: over a block that starts with the bytes of a row, it writes that row. The row
ends with the block or is full. -/
def WritesRow (setting : Setting) (program : List Char) (format : NumberFormat) (perLine : Nat)
    (row : List UInt8 → Row) (body rest : List Char) : Prop :=
  ∀ (c : Context) (us more : List UInt8), c.format = format → c.Faces setting (us ++ more) →
    us ≠ [] → us.length ≤ perLine → (more = [] ∨ us.length = perLine) →
    Ends setting program true {} body c ⟨true, .onward⟩ rest (c.writeRow setting (row us))

/-- **The outer loop writes the rows of a block.** -/
theorem loopEnds_rows (program : List Char) {format : NumberFormat} {perLine : Nat}
    {row : List UInt8 → Row} {body : List Char} (hperLine : perLine ≠ 0)
    (hbytes : ∀ us, (row us).bytes = us.length)
    (hbody : WritesRow setting program format perLine row body rest)
    (hskip : Source.skipToClose body = .ok rest) :
    ∀ (rounds : Nat) (bytes : List UInt8) (c : Context), c.format = format →
      c.Faces setting bytes → bytes.length ≤ rounds →
      LoopEnds setting program rounds (blockLoop body) c rest
        (((Dump.chunks perLine bytes).map row).foldl (Context.writeRow setting) c) := by
  have hleft {c : Context} {bytes : List UInt8} (hfaces : c.Faces setting bytes) :
      c.currentAddress ≤ c.blockEnd ↔ bytes ≠ [] := by
    have hlength := hfaces.length
    rw [Context.currentAddress, hfaces.lineOffset, UInt16.add_zero, UInt16.le_iff_toNat_le,
      ← List.length_pos_iff]
    omega
  have hdone (rounds : Nat) {c : Context} (hfaces : c.Faces setting []) :
      LoopEnds setting program rounds (blockLoop body) c rest
        (((Dump.chunks perLine []).map row).foldl (Context.writeRow setting) c) := by
    rw [Dump.chunks, List.map_nil, List.foldl_nil]
    refine LoopEnds.done (expectOpen_open _) (by simp [blockLoop]) (ends_blockTest _ c) ?_
      (expectOpen_open _) hskip
    exact decide_eq_false fun h => (hleft hfaces).1 h rfl
  intro rounds
  induction rounds with
  | zero =>
    intro bytes c _ hfaces hrounds
    obtain rfl := List.eq_nil_of_length_eq_zero (Nat.le_zero.1 hrounds)
    exact hdone 0 hfaces
  | succ rounds ih =>
    intro bytes c hformat hfaces hrounds
    cases bytes with
    | nil => exact hdone _ hfaces
    | cons b bs =>
      obtain ⟨us, more, happ, hne, hchunks, hfull, hlast⟩ := Dump.exists_chunks_cons perLine b bs
      rw [hchunks, List.map_cons, List.foldl_cons]
      rw [← happ] at hfaces hrounds
      have hpos := List.length_pos_iff.2 hne
      have hround := hbody c us more hformat hfaces hne (hfull.resolve_left hperLine)
        (hlast.imp_right And.right)
      have htest : decide (c.currentAddress ≤ c.blockEnd) = true :=
        decide_eq_true ((hleft hfaces).2 (by simp [hne]))
      rw [List.length_append] at hrounds
      exact LoopEnds.round (expectOpen_open _) (by simp [blockLoop]) (ends_blockTest _ c) htest
        (expectOpen_open _) (by simp only [blockLoop, List.length_cons]; omega) hround (by decide)
        (ih more _ hformat (hfaces.writeRow (hbytes us)) (by omega))

/-! ### The programs -/

/-- The layout that the programs have: the bytes without sign or gaps behind the title `DEFB`. -/
def plainLayout (perLine : Nat) (base : Base) : Layout := ⟨"DEFB", perLine, 0, base, false⟩

/-- Characters that stand for themselves are written one after the other. -/
theorem Ends.literals {outcome : Outcome} {c' : Context} (chars : List Char)
    (hkeeps : setting.charset.Keeps chars)
    (hplain : ∀ ch ∈ chars, Source.isBreak ch = false ∧ ch ≠ '%')
    (h : Ends setting program true {} cs (c.drafted setting (text ++ String.ofList chars) n) outcome
      rest c') :
    Ends setting program true {} (chars ++ cs) (c.drafted setting text n) outcome rest c' := by
  induction chars generalizing text with
  | nil => rwa [String.ofList_nil, String.append_empty] at h
  | cons ch chars ih =>
    obtain ⟨hbreak, hpercent⟩ := hplain ch List.mem_cons_self
    refine Ends.literal hbreak hpercent ?_
    rw [hkeeps ch List.mem_cons_self]
    refine ih (fun ch' hch' => hkeeps ch' (List.mem_cons_of_mem _ hch'))
      (fun ch' hch' => hplain ch' (List.mem_cons_of_mem _ hch')) ?_
    rwa [String.append_assoc, String.singleton_eq_ofList, ← String.ofList_append]

/-- `%SDEFB%T%B2F` begins a line with the first byte. -/
theorem ends_head {b : UInt8} {bs : List UInt8} {outcome : Outcome} {c' : Context}
    (hkeeps : setting.charset.Keeps ['D', 'E', 'F', 'B']) (hfaces : c.Faces setting (b :: bs))
    (h : Ends setting program true {} cs
      (c.drafted setting ("DEFB" ++ setting.scope.separator ++ formatByte c b) 1) outcome rest c') :
    Ends setting program true {}
      ('%' :: 'S' :: 'D' :: 'E' :: 'F' :: 'B' :: '%' :: 'T' :: '%' :: 'B' :: '2' :: 'F' :: cs) c
      outcome rest c' := by
  have hstart : c.startLine setting = c.drafted setting "" 0 := by
    rw [c.startLine_of_none setting hfaces.line, Context.drafted]
    simp only [hfaces.lineOffset]
    rfl
  have hbegin (cs : List Char) : simple setting 'S' cs c = .ok cs (c.drafted setting "" 0) := by
    rw [← hstart]
    rfl
  have hseparate (cs : List Char) : simple setting 'T' cs (c.drafted setting "DEFB" 0) =
    .ok cs (c.drafted setting ("DEFB" ++ setting.scope.separator) 0) := rfl
  refine Ends.simple (by decide) (hbegin _) (Nat.le_refl _) ?_
  refine Ends.literals ['D', 'E', 'F', 'B'] hkeeps (by simp [Source.isBreak]) ?_
  refine Ends.simple (by decide) (hseparate _) (Nat.le_refl _) ?_
  exact Ends.simple (by decide) (simple_nextByte hfaces rfl cs) (Nat.le_add_right _ 2) h

/-- The body of a program that writes up to eight bytes on a line:
`%SDEFB%T%B2F`, the inner loop and `%E%)`. -/
def eightBody (rest : List Char) : List Char :=
  '%' :: 'S' :: 'D' :: 'E' :: 'F' :: 'B' :: '%' :: 'T' :: '%' :: 'B' :: '2' :: 'F' :: '%' :: 'L' ::
    itemLoop ('%' :: 'E' :: '%' :: ')' :: rest)

/-- The body of a program that writes a byte on a line: `%SDEFB%T%B2F%E%)`. -/
def oneBody (rest : List Char) : List Char :=
  '%' :: 'S' :: 'D' :: 'E' :: 'F' :: 'B' :: '%' :: 'T' :: '%' :: 'B' :: '2' :: 'F' ::
    '%' :: 'E' :: '%' :: ')' :: rest

/-- `%E%)` ends the line and the body. -/
theorem ends_tail (rest : List Char) (c : Context) (text : String) (n : Nat) :
    Ends setting program true {} ('%' :: 'E' :: '%' :: ')' :: rest) (c.drafted setting text n)
      ⟨true, .onward⟩ rest (c.writeRow setting ⟨text, n⟩) := by
  have hend : simple setting 'E' ('%' :: ')' :: rest) (c.drafted setting text n) =
    .ok ('%' :: ')' :: rest) (c.writeRow setting ⟨text, n⟩) := rfl
  exact Ends.simple (by decide) hend (Nat.le_refl _) (ends_close setting program _ rest _)

/-- The row of some bytes, the first one apart. -/
theorem byteRow_cons {format : NumberFormat} (hsigned : format.signed = false)
    (hformat : c.format = format) (perLine : Nat) (separator : String) (b : UInt8)
    (bs : List UInt8) :
    (plainLayout perLine format.base).byteRow separator (b :: bs) =
      ⟨"DEFB" ++ separator ++ formatByte c b ++ Dump.itemsText 0 1 (bs.map (formatByte c)),
        1 + bs.length⟩ := by
  have hbyte : (plainLayout perLine format.base).byteText = formatByte c := by
    funext b
    rw [formatByte, hformat, hsigned]
    rfl
  rw [Layout.byteRow, Layout.text_eq, hbyte, List.map_cons, List.length_cons, Nat.add_comm]
  simp only [plainLayout, Dump.itemsText, Dump.itemSeparator, if_true, String.empty_append,
    Nat.zero_add, String.append_assoc]

/-- **The body with the inner loop writes a row of up to eight bytes.** -/
theorem writesRow_eightBody (program : List Char)
    (hkeeps : setting.charset.Keeps ['D', 'E', 'F', 'B', ',']) {format : NumberFormat}
    (hsigned : format.signed = false) (rest : List Char) :
    WritesRow setting program format 8
      ((plainLayout 8 format.base).byteRow setting.scope.separator) (eightBody rest) rest := by
  intro c us more hformat hfaces hne hfull hlast
  obtain ⟨b, bs, rfl⟩ := List.exists_cons_of_ne_nil hne
  rw [List.length_cons] at hfull hlast
  rw [byteRow_cons hsigned hformat]
  refine ends_head (fun ch hch => hkeeps ch ?_) hfaces ?_
  · exact List.mem_append_left [','] hch
  have hitems := loopEnds_items program ('%' :: 'E' :: '%' :: ')' :: rest)
    (hkeeps ',' (by decide)) hfaces bs 1 maxRounds
    ("DEFB" ++ setting.scope.separator ++ formatByte c b) more rfl (Nat.le_refl 1) (by omega)
    (hlast.imp_right (by omega)) (by simp) (by unfold maxRounds; omega)
  exact Ends.loop hitems (by simp [itemLoop]) (ends_tail rest c _ _)

/-- **The body without a loop writes a row of one byte.** -/
theorem writesRow_oneBody (program : List Char)
    (hkeeps : setting.charset.Keeps ['D', 'E', 'F', 'B']) {format : NumberFormat}
    (hsigned : format.signed = false) (rest : List Char) :
    WritesRow setting program format 1
      ((plainLayout 1 format.base).byteRow setting.scope.separator) (oneBody rest) rest := by
  intro c us more hformat hfaces hne hfull _
  obtain ⟨b, rfl⟩ : ∃ b, us = [b] := by
    have := List.length_pos_iff.2 hne
    exact List.length_eq_one_iff.1 (by omega)
  rw [byteRow_cons hsigned hformat, List.map_nil, Dump.itemsText, String.append_empty]
  exact ends_head hkeeps hfaces (ends_tail rest c _ _)

/-- A block inside the window that ends before the last address is faced at its start. -/
theorem faces_start {first last : UInt16} (overlay : Overlay) (references : Std.TreeSet UInt16)
    (hfirst : setting.image.origin ≤ first) (hle : first ≤ last)
    (hlast : last.toNat < setting.image.stop) (htop : last < 0xFFFF) :
    (Context.start setting overlay references first last).Faces setting
      ((setting.image.windowFrom first.toNat).take (last.toNat + 1 - first.toNat)) := by
  rw [UInt16.le_iff_toNat_le] at hfirst hle
  refine ⟨rfl, rfl, rfl, rfl, htop, ?_, ?_⟩
  · rw [List.length_take, Image.length_windowFrom hfirst (by omega)]
    change _ = last.toNat + 1 - first.toNat
    omega
  · have hholds := Image.holds_windowFrom hfirst (by omega)
    rw [← List.take_append_drop (last.toNat + 1 - first.toNat)
      (setting.image.windowFrom first.toNat), Image.holds_append] at hholds
    exact hholds.1

/-- A block has a byte. -/
theorem faces_start_ne_nil {first last : UInt16} (hfirst : setting.image.origin ≤ first)
    (hle : first ≤ last) (hlast : last.toNat < setting.image.stop) :
    (setting.image.windowFrom first.toNat).take (last.toNat + 1 - first.toNat) ≠ [] := by
  rw [UInt16.le_iff_toNat_le] at hfirst hle
  rw [← List.length_pos_iff, List.length_take, Image.length_windowFrom hfirst (by omega)]
  omega

/-- **A program that is one call of a dump of bytes writes its rows.** -/
theorem run_byteDump {program : String} {cs : List Char} {arguments : String} {a : Arguments}
    {l : Layout} (hprogram : program.toList = '%' :: 'P' :: cs)
    (hsource : Source.call cs = .ok ("ByteDump", arguments, []))
    (hread : Arguments.read "ByteDump" arguments = .ok a)
    (hasks : a.AsksBytes c.format.base l) (hfaces : c.Faces setting bytes) (hne : bytes ≠ []) :
    run setting program c = .ok ⟨true, .onward⟩
      (((Dump.chunks l.perLine bytes).map (l.byteRow setting.scope.separator)).foldl
        (Context.writeRow setting) c) := by
  have hname : "ByteDump".toLower = "bytedump" := by decide +kernel
  have hdump := (byteDump_eq hasks).trans (run_dumpBytes hfaces hne)
  generalize ((Dump.chunks l.perLine bytes).map (l.byteRow setting.scope.separator)).foldl
    (Context.writeRow setting) c = c' at hdump
  have hroutine : Routine.call setting "ByteDump" arguments c = .ok none c' := by
    rw [Routine.call, hread, ofExcept_ok, bind_ok (pure_apply _ _), hname]
    exact bind_ok hdump
  have hcall : call setting {} cs c = .ok ({}, []) c' := call_of_routine hsource hroutine
  refine run_of_ends [] ?_
  rw [hprogram]
  exact Ends.call hcall (Nat.zero_le _) (ends_nil setting _ _ _)

/-- The context with another format of numbers. -/
def Context.withFormat (format : NumberFormat) (c : Context) : Context := { c with format }

/-- The format of numbers has no part in writing rows, apart from the spacing of lines. -/
theorem foldl_writeRow_withFormat (rows : List Row) (c : Context) (format : NumberFormat)
    (hspacing : format.spacing = c.format.spacing) :
    rows.foldl (Context.writeRow setting) (c.withFormat format) =
      (rows.foldl (Context.writeRow setting) c).withFormat format := by
  induction rows generalizing c with
  | nil => rfl
  | cons row rows ih =>
    have hrow : (c.withFormat format).writeRow setting row =
        (c.writeRow setting row).withFormat format := by
      simp only [Context.writeRow, Context.drafted, Context.endLine, Context.nextLine,
        Context.withFormat, hspacing]
      rfl
    rw [List.foldl_cons, hrow]
    exact ih (c.writeRow setting row) hspacing

/-- The program that dumps bytes with loops of its own. -/
def eightProgram : String := "%L%(%?LE8F8E%)%(%SDEFB%T%B2F%L%(%?LE8F8E%?LT8CC00008%)%(,%B2F%)%E%)"

/-- The program that is one call of a dump of binary bytes, one on each line. -/
def binaryProgram : String := "%PByteDump(\"bin\", per_line=1)"

/-- The format of the program for graphics. -/
def binaryFormat : NumberFormat := ⟨.binary, false, false, 0⟩

/-- A loop may have as many rounds as a block can have bytes. -/
theorem length_le_maxRounds (hfaces : c.Faces setting bytes) : bytes.length ≤ maxRounds := by
  have hlength := hfaces.length
  have hend := c.blockEnd.toNat_lt
  unfold maxRounds
  omega

/-- **The loops of the program write the rows of eight bytes.** -/
theorem run_eightProgram (hkeeps : setting.charset.Keeps ['D', 'E', 'F', 'B', ','])
    (hfaces : c.Faces setting bytes) (hsigned : c.format.signed = false) :
    run setting eightProgram c = .ok ⟨true, .onward⟩
      (((Dump.chunks 8 bytes).map
        ((plainLayout 8 c.format.base).byteRow setting.scope.separator)).foldl
          (Context.writeRow setting) c) := by
  have htext : eightProgram.toList = '%' :: 'L' :: blockLoop (eightBody []) := by decide
  have hloop := loopEnds_rows eightProgram.toList (by decide) (fun _ => rfl)
    (writesRow_eightBody _ hkeeps hsigned []) rfl maxRounds bytes c rfl hfaces
    (length_le_maxRounds hfaces)
  refine run_of_ends [] ?_
  nth_rewrite 2 [htext]
  exact Ends.loop hloop (Nat.zero_le _) (ends_nil setting _ _ _)

/-- The built-in program for graphics. -/
def graphicsProgram : String := "%F03%L%(%?LE8F8E%)%(%SDEFB%T%B2F%E%)"

/-- **The loop of the program for graphics writes the rows of one binary byte.** -/
theorem run_graphicsProgram (hkeeps : setting.charset.Keeps ['D', 'E', 'F', 'B'])
    (hfaces : c.Faces setting bytes) :
    run setting graphicsProgram c = .ok ⟨true, .onward⟩
      ((((Dump.chunks 1 bytes).map
        ((plainLayout 1 .binary).byteRow setting.scope.separator)).foldl
          (Context.writeRow setting) c).withFormat binaryFormat) := by
  have htext : graphicsProgram.toList =
      '%' :: 'F' :: '0' :: '3' :: '%' :: 'L' :: blockLoop (oneBody []) := by decide
  have hformat (cs : List Char) :
    simple setting 'F' ('0' :: '3' :: cs) c = .ok cs (c.withFormat binaryFormat) := rfl
  have hfaces' : (c.withFormat binaryFormat).Faces setting bytes :=
    ⟨hfaces.line, hfaces.lineOffset, rfl, hfaces.emptied, hfaces.blockEnd, hfaces.length,
      hfaces.holds⟩
  have hloop := loopEnds_rows graphicsProgram.toList (by decide) (fun _ => rfl)
    (writesRow_oneBody _ hkeeps rfl []) rfl maxRounds bytes (c.withFormat binaryFormat) rfl hfaces'
    (length_le_maxRounds hfaces)
  -- the rows are the same in either format, since their layout names its own base
  rw [← foldl_writeRow_withFormat _ _ _ hfaces.spacing.symm]
  refine run_of_ends [] ?_
  nth_rewrite 2 [htext]
  refine Ends.simple (by decide) (hformat _) (Nat.le_add_right _ 2) ?_
  exact Ends.loop hloop (Nat.zero_le _) (ends_nil setting _ _ _)

/-- The call of the dump without arguments writes the rows of eight bytes. -/
theorem run_rawProgram (hfaces : c.Faces setting bytes) (hne : bytes ≠ []) :
    run setting Preset.rawBytes c = .ok ⟨true, .onward⟩
      (((Dump.chunks 8 bytes).map
        ((plainLayout 8 c.format.base).byteRow setting.scope.separator)).foldl
          (Context.writeRow setting) c) := by
  have htext : Preset.rawBytes.toList =
      '%' :: 'P' :: ['B', 'y', 't', 'e', 'D', 'u', 'm', 'p', '(', ')'] := by decide
  have hasks : Arguments.AsksBytes ⟨"ByteDump", [], []⟩ c.format.base
    (plainLayout 8 c.format.base) := ⟨rfl, rfl, rfl, rfl, rfl⟩
  exact run_byteDump htext rfl rfl hasks hfaces hne

/-- The arguments of the call for binary bytes. -/
theorem read_binaryArguments : Arguments.read "ByteDump" "\"bin\", per_line=1" =
    .ok ⟨"ByteDump", [.string "bin"], [("per_line", .int 1)]⟩ := by
  have hsplit : splitArguments false false "\"bin\", per_line=1".toList =
      [['"', 'b', 'i', 'n', '"'], ' ' :: "per_line=1".toList] := by decide
  have hbase : (⟨"ByteDump", [], []⟩ : Arguments).add (Text.trim ['"', 'b', 'i', 'n', '"']) =
      .ok ⟨"ByteDump", [.string "bin"], []⟩ := rfl
  have hperLine : (⟨"ByteDump", [.string "bin"], []⟩ : Arguments).add
      (Text.trim (' ' :: "per_line=1".toList)) =
      .ok ⟨"ByteDump", [.string "bin"], [("per_line", .int 1)]⟩ := by
    have htrim : Text.trim (' ' :: "per_line=1".toList) = "per_line=1".toList := by decide
    have hname : splitName? "per_line=1".toList = some ("per_line", ['1']) := by decide +kernel
    have hone : (String.ofList ['1']).toLower = "1" := by decide +kernel
    have hvalue : Value.read? ['1'] = some (.int 1) := by
      simp only [Value.read?, hone]
      rfl
    simp only [htrim, Arguments.add, hname, hvalue]
    rfl
  have htrim : Text.trim "\"bin\", per_line=1".toList ≠ [] := by decide
  rw [Arguments.read, if_neg htrim, hsplit, List.foldlM_cons, hbase]
  exact congrArg (· >>= pure) hperLine

/-- The call of the dump for binary bytes writes the rows of one of them. -/
theorem run_binaryProgram (hfaces : c.Faces setting bytes) (hne : bytes ≠ []) :
    run setting binaryProgram c = .ok ⟨true, .onward⟩
      (((Dump.chunks 1 bytes).map
        ((plainLayout 1 .binary).byteRow setting.scope.separator)).foldl
          (Context.writeRow setting) c) := by
  have htext : binaryProgram.toList =
      '%' :: 'P' :: ['B', 'y', 't', 'e', 'D', 'u', 'm', 'p', '(', '"', 'b', 'i', 'n', '"', ',', ' ',
        'p', 'e', 'r', '_', 'l', 'i', 'n', 'e', '=', '1', ')'] := by decide
  have hname : Base.ofName? "bin" = some .binary := by decide +kernel
  have hasks : Arguments.AsksBytes ⟨"ByteDump", [.string "bin"], [("per_line", .int 1)]⟩
      c.format.base (plainLayout 1 .binary) :=
    ⟨by simp [Arguments.base, Arguments.get?, hname, plainLayout], rfl, rfl, rfl, rfl⟩
  exact run_byteDump htext rfl read_binaryArguments hasks hfaces hne

/-! ### Programs that agree -/

/-- Two programs render a block in the same way: both succeed, go through the block and leave the
same lines, with their comments, the same directives, the same references and the same place to go
on. -/
def RenderAlike (setting : Setting) (c : Context) (program program' : String) : Prop :=
  ∃ d d', run setting program c = .ok ⟨true, .onward⟩ d ∧
    run setting program' c = .ok ⟨true, .onward⟩ d' ∧ IsThrough c d ∧ IsThrough c d' ∧
    (d.finish setting).lines = (d'.finish setting).lines ∧
    (d.finish setting).overlay = (d'.finish setting).overlay ∧
    (d.finish setting).references = (d'.finish setting).references ∧
    (d.finish setting).resume = (d'.finish setting).resume

/-- Programs that write the same rows of a block render it alike, whatever format of numbers the
first one leaves. -/
theorem renderAlike_of_rows {program program' : String} {l : Layout} {format : NumberFormat}
    (hfaces : c.Faces setting bytes) (hne : bytes ≠ [])
    (hrun : run setting program c = .ok ⟨true, .onward⟩
      ((((Dump.chunks l.perLine bytes).map (l.byteRow setting.scope.separator)).foldl
        (Context.writeRow setting) c).withFormat format))
    (hrun' : run setting program' c = .ok ⟨true, .onward⟩
      (((Dump.chunks l.perLine bytes).map (l.byteRow setting.scope.separator)).foldl
        (Context.writeRow setting) c)) :
    RenderAlike setting c program program' := by
  obtain ⟨hwrote, hthrough⟩ := isThrough_foldl hfaces hne (total_byteRows setting l bytes)
  generalize ((Dump.chunks l.perLine bytes).map (l.byteRow setting.scope.separator)).foldl
    (Context.writeRow setting) c = d at hrun hrun' hwrote hthrough
  have hfinish : d.finish setting = d := by
    rw [Context.finish, hwrote.line]
    rfl
  have hfinish' : (d.withFormat format).finish setting = d.withFormat format := by
    rw [Context.finish, Context.withFormat, hwrote.line]
    rfl
  refine ⟨_, _, hrun, hrun', ⟨hthrough.currentAddress, hthrough.remaining, hthrough.blockEnd⟩,
    hthrough, ?_⟩
  rw [hfinish, hfinish']
  exact ⟨rfl, rfl, rfl, rfl⟩

/-- The character set of the Spectrum leaves the characters of the programs as they are. -/
theorem keeps_spectrum : Spectrum.charset.Keeps ['D', 'E', 'F', 'B', ','] := by
  intro ch hch
  simp only [List.mem_cons, List.not_mem_nil, or_false] at hch
  rcases hch with rfl | rfl | rfl | rfl | rfl <;> decide

/-- **The programs with loops of their own agree with the calls of the dump.** Over a block inside
the window that ends before the last address, the program for eight bytes on a line renders what the
call without arguments renders, and the program for graphics what the call for one binary byte on a
line renders, with the same comments on the same lines. The character set is to leave the characters
of the programs as they are. -/
theorem programs_agree (hkeeps : setting.charset.Keeps ['D', 'E', 'F', 'B', ','])
    (overlay : Overlay) (references : Std.TreeSet UInt16) {first last : UInt16}
    (hfirst : setting.image.origin ≤ first) (hle : first ≤ last)
    (hlast : last.toNat < setting.image.stop) (htop : last < 0xFFFF) :
    RenderAlike setting (.start setting overlay references first last) eightProgram
        Preset.rawBytes ∧
      ∃ preset, Preset.ofName? "graphics" = some preset ∧
        RenderAlike setting (.start setting overlay references first last) preset.program
          binaryProgram := by
  have hfaces := faces_start overlay references hfirst hle hlast htop
  have hne := faces_start_ne_nil hfirst hle hlast
  have hkeeps' : setting.charset.Keeps ['D', 'E', 'F', 'B'] :=
    fun ch hch => hkeeps ch (List.mem_append_left [','] hch)
  have hgraphics : Preset.ofName? "graphics" =
      some ⟨"graphics", .data, "One binary DEFB per line, for character and sprite bitmaps",
        graphicsProgram⟩ := by
    have hname : "graphics".toLower = "graphics" := by decide +kernel
    rw [Preset.ofName?, hname]
    rfl
  refine ⟨?_, _, hgraphics, ?_⟩
  · exact renderAlike_of_rows hfaces hne (run_eightProgram hkeeps hfaces rfl)
      (run_rawProgram hfaces hne)
  · exact renderAlike_of_rows hfaces hne (run_graphicsProgram hkeeps' hfaces)
      (run_binaryProgram hfaces hne)

/-- The programs agree on a block of five bytes with a comment on the third. -/
theorem programs_agree_fiveBytes :
    let title : Directive := ⟨0x8002, 0x8002, .comment .before "table"⟩
    RenderAlike fiveBytes (.start fiveBytes (.ofList [title]) ∅ 0x8000 0x8004) eightProgram
        Preset.rawBytes ∧
      ∃ preset, Preset.ofName? "graphics" = some preset ∧
        RenderAlike fiveBytes (.start fiveBytes (.ofList [title]) ∅ 0x8000 0x8004) preset.program
          binaryProgram :=
  programs_agree keeps_spectrum _ ∅ (by decide) (by decide) (by decide) (by decide)

end Script
end Disassembly
