/-
# Dumps render exactly their block

A dump of bytes or words that starts at a line and faces the bytes of its block writes them in
address order, so many on each line, and ends behind the block (`dumps_write_block`). The rows of a
dump are told without its loops: the values are cut into pieces (`IsCut`), and a row is the title,
the separator of columns and the values of a piece with what stands between them (`Layout.text`). A
dump of words takes the bytes in pairs and leaves a last odd one to a row of its own.
-/

import Disassembly.Proofs.Image.Reads
import Disassembly.Proofs.Routine.Dump
import Disassembly.Proofs.Script.Lines

namespace Disassembly
namespace Routine

open Script

namespace Dump

/-! ### Pieces of a list -/

/-- A list is cut into pieces of `n`, the last one perhaps shorter; into one if `n` is zero. -/
structure IsCut {α : Type} (n : Nat) (xs : List α) (pieces : List (List α)) : Prop where
  flatten : pieces.flatten = xs
  ne_nil : ∀ piece ∈ pieces, piece ≠ []
  single : n = 0 → pieces.length ≤ 1
  full : n ≠ 0 → ∀ piece ∈ pieces.dropLast, piece.length = n
  length_le : n ≠ 0 → ∀ piece ∈ pieces, piece.length ≤ n

/-- **The pieces of a list are what it is cut into.** -/
theorem isCut_chunks {α : Type} (n : Nat) (xs : List α) : IsCut n xs (chunks n xs) where
  flatten := flatten_chunks n xs
  ne_nil := fun _ h => ne_nil_of_mem_chunks h
  single := by
    rintro rfl
    cases xs <;> simp [chunks]
  full := by
    intro hn
    fun_induction chunks n xs with
    | case1 => simp
    | case2 x xs hzero => exact absurd hzero hn
    | case3 x xs hpos ih =>
      intro piece hpiece
      by_cases hrest : xs.drop (n - 1) = []
      · simp [hrest, chunks] at hpiece
      · obtain ⟨y, ys, hys⟩ := List.exists_cons_of_ne_nil hrest
        obtain ⟨us, rest, -, -, hchunks, -, -⟩ := exists_chunks_cons n y ys
        rw [hys, hchunks] at ih hpiece
        rw [List.dropLast_cons_cons, List.mem_cons] at hpiece
        rcases hpiece with rfl | hpiece
        · rw [List.length_cons, List.length_take]
          have := List.drop_eq_nil_iff.not.1 hrest
          omega
        · exact ih piece hpiece
  length_le := by
    intro hn
    fun_induction chunks n xs with
    | case1 => simp
    | case2 x xs hzero => exact absurd hzero hn
    | case3 x xs hpos ih =>
      intro piece hpiece
      rcases List.mem_cons.1 hpiece with rfl | hpiece
      · rw [List.length_cons, List.length_take]
        omega
      · exact ih piece hpiece

/-! ### The rows of a dump -/

variable {setting : Setting} {d : Dump} {render : List UInt8 → String}

/-- The row of a dump with the given items. -/
def row (setting : Setting) (d : Dump) (texts : List String) : Row :=
  ⟨d.lineText setting texts, d.size * texts.length⟩

/-- The rows of a dump of values, so many on each. -/
def rows {α : Type} (setting : Setting) (d : Dump) (text : α → String) (xs : List α) : List Row :=
  (chunks d.perLine xs).map fun piece => d.row setting (piece.map text)

/-- Rows of the pieces of a list show the bytes of all values. -/
theorem total_map_chunks {α : Type} {row : List α → Row} {size : Nat}
    (hrow : ∀ piece, (row piece).bytes = size * piece.length) (n : Nat) (xs : List α) :
    Row.total ((chunks n xs).map row) = size * xs.length := by
  have hpieces (pieces : List (List α)) :
      Row.total (pieces.map row) = size * pieces.flatten.length := by
    induction pieces with
    | nil => rfl
    | cons piece pieces ih =>
      rw [List.map_cons, Row.total, ih, hrow, List.flatten_cons, List.length_append, Nat.mul_add]
  rw [hpieces, flatten_chunks]

/-- **A dump writes the rows of its values**, whose bytes are those of the block up to a part that is
too short for a value. -/
theorem run_rows {α : Type} (encode : α → List UInt8) {text : α → String}
    (hd : d.Reads setting render) (hrender : ∀ x, render (encode x) = text x)
    (hsize : ∀ x, (encode x).length = d.size) (xs : List α) {c : Context} (hline : c.line = none)
    (hoffset : c.lineOffset = 0)
    (hholds : setting.image.Holds c.lineStart.toNat (xs.flatMap encode))
    (htop : c.lineStart.toNat + d.size * xs.length < 0x10000)
    (hroom : d.size * xs.length ≤ c.remaining)
    (hend : c.remaining < d.size * (xs.length + 1)) :
    d.run setting c = .ok () ((d.rows setting text xs).foldl (Context.writeRow setting) c) := by
  have hlimit : xs.length < limit := by
    have := Nat.le_mul_of_pos_left xs.length hd.size_pos
    unfold limit
    omega
  have hunits := lines_eq hd limit (xs.map encode) c hline hoffset
    (by intro u hu
        obtain ⟨x, -, rfl⟩ := List.mem_map.1 hu
        exact hsize x)
    (by rwa [← List.flatMap_def])
    (by rwa [List.length_map]) (by rwa [List.length_map]) (by rwa [List.length_map])
    (by rwa [List.length_map])
  have hwrite : d.write setting render (xs.map encode) c =
      (d.rows setting text xs).foldl (Context.writeRow setting) c := by
    rw [write, chunks_map, List.foldl_map, rows, List.foldl_map]
    simp only [List.map_map, Function.comp_def, hrender]
    rfl
  rw [run, hunits, hwrite]

/-- The items of a line, each behind what stands before it. -/
theorem itemsText_eq_join (gap index : Nat) (texts : List String) :
    itemsText gap index texts =
      String.join (texts.mapIdx fun i text => itemSeparator (index + i) gap ++ text) := by
  induction texts generalizing index with
  | nil => rfl
  | cons text texts ih =>
    rw [itemsText, ih, List.mapIdx_cons, String.join_cons]
    simp only [Nat.add_zero, Nat.add_assoc, Nat.add_comm 1]

end Dump

/-! ### What a dump is asked for -/

/-- The layout of a dump, and the way its numbers are written. -/
structure Layout where
  title : String
  perLine : Nat
  gap : Nat
  base : Base
  signed : Bool

namespace Layout

variable (l : Layout)

/-- The text of a row: the values with a comma before each but the first, and a comma and a blank
before every `gap`-th. -/
def text (separator : String) (values : List String) : String :=
  l.title ++ separator ++ String.join (values.mapIdx fun i value =>
    (if i = 0 then "" else if 0 < l.gap ∧ l.gap ∣ i then ", " else ",") ++ value)

/-- A byte as a number. -/
def byteText (b : UInt8) : String := Numeral.operand b.toNat .byte l.base l.signed

/-- Two bytes as a number, the first one low unless `bigEndian`. -/
def wordText (bigEndian : Bool) (pair : UInt8 × UInt8) : String :=
  Numeral.operand
    (if bigEndian then 0x100 * pair.1.toNat + pair.2.toNat
      else 0x100 * pair.2.toNat + pair.1.toNat) .word l.base l.signed

/-- The row of some bytes. -/
def byteRow (separator : String) (bytes : List UInt8) : Row :=
  ⟨l.text separator (bytes.map l.byteText), bytes.length⟩

/-- The row of some pairs of bytes. -/
def wordRow (separator : String) (bigEndian : Bool) (pairs : List (UInt8 × UInt8)) : Row :=
  ⟨l.text separator (pairs.map (l.wordText bigEndian)), 2 * pairs.length⟩

/-- The row of the last byte of a dump of words. -/
def oddRow (separator : String) (b : UInt8) : Row := ⟨"DEFB" ++ separator ++ l.byteText b, 1⟩

end Layout

/-- A dump of bytes with these arguments is laid out in this way. -/
structure Arguments.AsksBytes (a : Arguments) (current : Base) (l : Layout) : Prop where
  base : a.base "format" 0 current = .ok l.base
  signed : a.bool "signed" 1 false = .ok l.signed
  perLine : a.count "per_line" 2 8 0xFFFF = .ok l.perLine
  gap : a.count "gap" 3 0 0xFFFF = .ok l.gap
  title : a.string "title" 4 "DEFB" = .ok l.title

/-- A dump of words with these arguments is laid out in this way. -/
structure Arguments.AsksWords (a : Arguments) (current : Base) (bigEndian : Bool) (l : Layout) :
    Prop where
  base : a.base "format" 0 current = .ok l.base
  signed : a.bool "signed" 1 false = .ok l.signed
  bigEndian : a.bool "big_endian" 2 false = .ok bigEndian
  perLine : a.count "per_line" 3 4 0xFFFF = .ok l.perLine
  gap : a.count "gap" 4 0 0xFFFF = .ok l.gap
  title : a.string "title" 5 "DEFW" = .ok l.title

variable {setting : Setting} {c c' : Context} {bytes : List UInt8} {a : Arguments} {l : Layout}
  {bigEndian : Bool}

/-- The dump of bytes with a layout. -/
def Layout.dumpBytes (setting : Setting) (l : Layout) : Dump :=
  byteLayout setting l.title l.perLine l.gap l.base l.signed

/-- The dump of words with a layout. -/
def Layout.dumpWords (setting : Setting) (bigEndian : Bool) (l : Layout) : Dump :=
  { title := l.title, perLine := l.perLine, gap := l.gap, size := 2
    item := wordItem setting l.base l.signed bigEndian }

theorem byteDump_eq (h : a.AsksBytes c.format.base l) :
    byteDump setting a c = (l.dumpBytes setting).run setting c := by
  rw [byteDump, bind_ok (get_apply c), h.base, ofExcept_ok, bind_ok (pure_apply _ _), h.signed,
    ofExcept_ok, bind_ok (pure_apply _ _), h.perLine, ofExcept_ok, bind_ok (pure_apply _ _), h.gap,
    ofExcept_ok, bind_ok (pure_apply _ _), h.title, ofExcept_ok, bind_ok (pure_apply _ _)]
  rfl

/-- A dump of words is a dump of pairs, and a line for a byte that is left. -/
theorem wordDump_eq (h : a.AsksWords c.format.base bigEndian l) :
    wordDump setting a c = ((l.dumpWords setting bigEndian).run setting >>= fun _ => get >>= fun c =>
      if c.remaining = 1 then
        byteItem setting l.base l.signed >>= fun text => modify fun c =>
          (((((c.startLine setting).pushText setting "DEFB").pushSeparator setting).pushText setting
            text).endLine setting)
      else pure ()) c := by
  rw [wordDump, bind_ok (get_apply c), h.base, ofExcept_ok, bind_ok (pure_apply _ _), h.signed,
    ofExcept_ok, bind_ok (pure_apply _ _), h.bigEndian, ofExcept_ok, bind_ok (pure_apply _ _),
    h.perLine, ofExcept_ok, bind_ok (pure_apply _ _), h.gap, ofExcept_ok, bind_ok (pure_apply _ _),
    h.title, ofExcept_ok, bind_ok (pure_apply _ _)]
  rfl

/-- The items of a dump of words are the pairs of bytes as numbers. -/
theorem reads_dumpWords (setting : Setting) (bigEndian : Bool) (l : Layout) :
    (l.dumpWords setting bigEndian).Reads setting
      fun bs => l.wordText bigEndian (bs.headD 0, bs.tail.headD 0) where
  size_pos := Nat.two_pos
  item c bs hlen hholds htop := by
    obtain ⟨first, second, rfl⟩ := List.length_eq_two.1 hlen
    have htop : c.lineOffset.toNat + 2 < 0x10000 := htop
    have hoffset := c.toNat_lineOffset_advance 1 (by omega)
    have hposition : (c.advance 1).position = c.position + 1 := by
      change c.lineStart.toNat + (c.advance 1).lineOffset.toNat = _
      rw [hoffset, Context.position, Nat.add_assoc]
    have hsecond : setting.image.byte? (c.advance 1).position = some second := by
      rw [hposition]
      exact hholds.2.1
    change wordItem setting l.base l.signed bigEndian c = _
    rw [wordItem, bind_ok (nextByte_eq hholds.1), bind_ok (nextByte_eq hsecond), pure_apply,
      Image.toNat_combine]
    simp only [Context.advance, UInt16.add_assoc]
    rfl

/-- The values of a row come one by one, each behind what stands before it. -/
theorem Layout.text_eq (l : Layout) (separator : String) (values : List String) :
    l.text separator values = l.title ++ separator ++ Dump.itemsText l.gap 0 values := by
  rw [Layout.text, Dump.itemsText_eq_join]
  simp only [Dump.itemSeparator, Nat.zero_add, Nat.dvd_iff_mod_eq_zero]

/-- The rows of a dump of bytes. -/
theorem rows_dumpBytes (setting : Setting) (l : Layout) (bytes : List UInt8) :
    (l.dumpBytes setting).rows setting l.byteText bytes =
      (Dump.chunks l.perLine bytes).map (l.byteRow setting.scope.separator) := by
  refine List.map_congr_left fun piece _ => ?_
  rw [Dump.row, Dump.lineText, List.length_map, Layout.byteRow, Layout.text_eq]
  congr 1
  exact Nat.one_mul _

/-- The rows of a dump of words. -/
theorem rows_dumpWords (setting : Setting) (bigEndian : Bool) (l : Layout)
    (pairs : List (UInt8 × UInt8)) :
    (l.dumpWords setting bigEndian).rows setting (l.wordText bigEndian) pairs =
      (Dump.chunks l.perLine pairs).map (l.wordRow setting.scope.separator bigEndian) := by
  refine List.map_congr_left fun piece _ => ?_
  rw [Dump.row, Dump.lineText, List.length_map, Layout.wordRow, Layout.text_eq]
  rfl

/-- Bytes fall into pairs, with one byte or none left over. -/
theorem exists_pairs : ∀ bytes : List UInt8, ∃ (pairs : List (UInt8 × UInt8)) (rest : List UInt8),
    pairs.flatMap (fun pair => [pair.1, pair.2]) ++ rest = bytes ∧ rest.length ≤ 1
  | [] => ⟨[], [], rfl, Nat.zero_le 1⟩
  | [b] => ⟨[], [b], rfl, Nat.le_refl 1⟩
  | b :: b' :: bytes => by
    obtain ⟨pairs, rest, hbytes, hrest⟩ := exists_pairs bytes
    exact ⟨(b, b') :: pairs, rest, by rw [← hbytes]; rfl, hrest⟩

/-- Pairs have two bytes each. -/
theorem length_flatMap_pairs (pairs : List (UInt8 × UInt8)) :
    (pairs.flatMap fun pair => [pair.1, pair.2]).length = 2 * pairs.length := by
  induction pairs with
  | nil => rfl
  | cons pair pairs ih =>
    rw [List.flatMap_cons, List.length_append, ih, List.length_cons]
    simp only [List.length_cons, List.length_nil]
    omega

/-- A dump has gone through its block: the current address is right behind it, nothing remains and
the block ends where it ended. -/
structure IsThrough (c c' : Context) : Prop where
  currentAddress : c'.currentAddress.toNat = c.blockEnd.toNat + 1
  remaining : c'.remaining = 0
  blockEnd : c'.blockEnd = c.blockEnd

/-- Rows that show as many bytes as there are in the block go through it. -/
theorem isThrough_foldl (hfaces : c.Faces setting bytes) (hne : bytes ≠ []) {rows : List Row}
    (htotal : Row.total rows = bytes.length) :
    c.Wrote setting rows (rows.foldl (Context.writeRow setting) c) ∧
      IsThrough c (rows.foldl (Context.writeRow setting) c) := by
  obtain ⟨hstop, htop⟩ := hfaces.stop hne
  have hwrote := Context.wrote_foldl setting rows hfaces.line hfaces.lineOffset
    hfaces.spacing (by rw [htotal]; exact htop)
  obtain ⟨hend, hempty⟩ := Context.blockEnd_foldl_writeRow setting rows c
  have hstart := hwrote.lineStart
  rw [htotal, hstop] at hstart
  refine ⟨hwrote, ?_, ?_, hend⟩
  · rw [Context.currentAddress, hwrote.lineOffset, UInt16.add_zero, hstart]
  · rw [Context.remaining, Context.resume, hempty, hfaces.emptied, hend, Context.position, hstart,
      hwrote.lineOffset]
    simp

/-- **A dump of bytes writes the rows of its block.** -/
theorem run_dumpBytes (hfaces : c.Faces setting bytes) (hne : bytes ≠ []) :
    (l.dumpBytes setting).run setting c = .ok ()
      (((Dump.chunks l.perLine bytes).map (l.byteRow setting.scope.separator)).foldl
        (Context.writeRow setting) c) := by
  have htop := (hfaces.stop hne).2
  have hremaining := hfaces.remaining
  have hreads : (l.dumpBytes setting).Reads setting fun bs => l.byteText (bs.headD 0) :=
    reads_byteLayout ..
  have hsize : (l.dumpBytes setting).size = 1 := rfl
  rw [← rows_dumpBytes]
  refine Dump.run_rows (fun b => [b]) hreads (fun _ => rfl) (fun _ => rfl) bytes hfaces.line
    hfaces.lineOffset ?_ ?_ ?_ ?_
  · rw [List.flatMap_singleton']
    exact hfaces.holds
  all_goals rw [hsize]; omega

/-- **A dump of words writes the rows of the pairs of its block**, and stops before an odd byte. -/
theorem run_dumpWords (l : Layout) (bigEndian : Bool) {pairs : List (UInt8 × UInt8)}
    {rest : List UInt8}
    (hfaces : c.Faces setting (pairs.flatMap (fun pair => [pair.1, pair.2]) ++ rest))
    (hne : pairs.flatMap (fun pair => [pair.1, pair.2]) ++ rest ≠ []) (hrest : rest.length ≤ 1) :
    (l.dumpWords setting bigEndian).run setting c = .ok ()
      (((Dump.chunks l.perLine pairs).map (l.wordRow setting.scope.separator bigEndian)).foldl
        (Context.writeRow setting) c) := by
  have htop := (hfaces.stop hne).2
  have hremaining := hfaces.remaining
  rw [List.length_append, length_flatMap_pairs] at htop hremaining
  have hsize : (l.dumpWords setting bigEndian).size = 2 := rfl
  have hholds := (Image.holds_append.1 hfaces.holds).1
  rw [← rows_dumpWords]
  refine Dump.run_rows (fun pair => [pair.1, pair.2]) (reads_dumpWords setting bigEndian l)
    (fun pair => ?_) (fun pair => ?_) pairs hfaces.line hfaces.lineOffset hholds ?_ ?_ ?_
  · rfl
  · rfl
  · rw [hsize]
    omega
  · rw [hsize]
    omega
  · rw [hsize]
    omega

/-- The line of an odd byte is its row. -/
theorem oddLine_eq {b : UInt8} (hline : c.line = none) (hoffset : c.lineOffset = 0)
    (hbyte : setting.image.byte? c.lineStart.toNat = some b) :
    (byteItem setting l.base l.signed >>= fun text => modify fun c =>
      (((((c.startLine setting).pushText setting "DEFB").pushSeparator setting).pushText setting
        text).endLine setting)) c =
      .ok () (c.writeRow setting (l.oddRow setting.scope.separator b)) := by
  have hposition : c.position = c.lineStart.toNat := by
    rw [Context.position, hoffset, UInt16.toNat_zero, Nat.add_zero]
  have hitem : byteItem setting l.base l.signed c = .ok (l.byteText b) (c.advance 1) := by
    rw [byteItem, bind_ok (nextByte_eq (by rwa [hposition])), pure_apply]
    rfl
  have hopen : ((((c.advance 1).startLine setting).pushText setting "DEFB").pushSeparator
      setting).pushText setting (l.byteText b) =
      { c.advance 1 with
        line := some ⟨c.marker setting, "DEFB" ++ setting.scope.separator ++ l.byteText b⟩ } := by
    rw [(c.advance 1).startLine_of_none setting hline, Context.pushSeparator,
      Context.pushText_of_some _ _ _ rfl, Context.pushText_of_some _ _ _ rfl,
      Context.pushText_of_some _ _ _ rfl, String.empty_append]
    rfl
  rw [bind_ok hitem, modify_apply, hopen]
  simp only [Context.writeRow, Context.drafted, Layout.oddRow, Context.advance, hoffset,
    UInt16.zero_add]

/-- The rows of a dump of words, with that of an odd byte. -/
def Layout.allWordRows (l : Layout) (separator : String) (bigEndian : Bool)
    (pieces : List (List (UInt8 × UInt8))) (rest : List UInt8) : List Row :=
  pieces.map (l.wordRow separator bigEndian) ++ rest.map (l.oddRow separator)

/-- The rows of a dump of words show every byte of the block. -/
theorem total_allWordRows (setting : Setting) (l : Layout) (bigEndian : Bool)
    (pairs : List (UInt8 × UInt8)) {rest : List UInt8} (hrest : rest.length ≤ 1) :
    Row.total (l.allWordRows setting.scope.separator bigEndian (Dump.chunks l.perLine pairs) rest) =
      2 * pairs.length + rest.length := by
  rw [Layout.allWordRows, Row.total_append, Dump.total_map_chunks fun _ => rfl]
  rcases Nat.le_one_iff_eq_zero_or_eq_one.1 hrest with heven | hodd
  · obtain rfl := List.length_eq_zero_iff.1 heven
    rfl
  · obtain ⟨b, rfl⟩ := List.length_eq_one_iff.1 hodd
    rfl

/-- **A dump of words writes the pairs of its block and the odd byte behind them.** -/
theorem wordDump_writes {pairs : List (UInt8 × UInt8)} {rest : List UInt8}
    (hfaces : c.Faces setting (pairs.flatMap (fun pair => [pair.1, pair.2]) ++ rest))
    (hne : pairs.flatMap (fun pair => [pair.1, pair.2]) ++ rest ≠ []) (hrest : rest.length ≤ 1)
    (ha : a.AsksWords c.format.base bigEndian l) :
    wordDump setting a c = .ok ()
      ((l.allWordRows setting.scope.separator bigEndian (Dump.chunks l.perLine pairs) rest).foldl
        (Context.writeRow setting) c) := by
  have hstop := hfaces.stop hne
  have hholds := (Image.holds_append.1 hfaces.holds).2
  rw [List.length_append, length_flatMap_pairs] at hstop
  rw [length_flatMap_pairs] at hholds
  rw [Layout.allWordRows, List.foldl_append]
  generalize hwords : (Dump.chunks l.perLine pairs).map
    (l.wordRow setting.scope.separator bigEndian) = words
  have htotal : Row.total words = 2 * pairs.length := by
    rw [← hwords]
    exact Dump.total_map_chunks (fun _ => rfl) l.perLine pairs
  have hwrote := Context.wrote_foldl setting words hfaces.line hfaces.lineOffset hfaces.spacing
    (by rw [htotal]; omega)
  obtain ⟨hend, hempty⟩ := Context.blockEnd_foldl_writeRow setting words c
  have hrun := run_dumpWords l bigEndian hfaces hne hrest
  rw [hwords] at hrun
  generalize words.foldl (Context.writeRow setting) c = c₁ at hwrote hend hempty hrun
  have hstart : c₁.lineStart.toNat = c.lineStart.toNat + 2 * pairs.length := by
    rw [hwrote.lineStart, htotal]
  have hremaining : c₁.remaining = rest.length := by
    rw [Context.remaining, Context.resume, hempty, hfaces.emptied, hend, Context.position, hstart,
      hwrote.lineOffset]
    simp
    omega
  rw [wordDump_eq ha, bind_ok hrun, bind_ok (get_apply c₁), hremaining]
  rcases Nat.le_one_iff_eq_zero_or_eq_one.1 hrest with heven | hodd
  · obtain rfl := List.length_eq_zero_iff.1 heven
    rfl
  · obtain ⟨b, rfl⟩ := List.length_eq_one_iff.1 hodd
    rw [← hstart] at hholds
    exact oddLine_eq hwrote.line hwrote.lineOffset hholds.1

/-- The rows of a dump of bytes show every byte of the block. -/
theorem total_byteRows (setting : Setting) (l : Layout) (bytes : List UInt8) :
    Row.total ((Dump.chunks l.perLine bytes).map (l.byteRow setting.scope.separator)) =
      bytes.length := by
  rw [Dump.total_map_chunks fun piece => (Nat.one_mul piece.length).symm, Nat.one_mul]

/-- **Dumps render exactly their block.** Over a block with bytes in it that ends before the last
address, a dump of bytes writes them all in order, so many on each line, and a dump of words writes
their pairs in the same way and a last odd byte on a line of its own. Both end behind the block. -/
theorem dumps_write_block (hfaces : c.Faces setting bytes) (hne : bytes ≠ []) (l : Layout) :
    (∀ a : Arguments, a.AsksBytes c.format.base l →
      ∃ c' pieces, byteDump setting a c = .ok () c' ∧ Dump.IsCut l.perLine bytes pieces ∧
        c.Wrote setting (pieces.map (l.byteRow setting.scope.separator)) c' ∧ IsThrough c c') ∧
    ∀ (a : Arguments) (bigEndian : Bool), a.AsksWords c.format.base bigEndian l →
      ∃ c' pairs rest pieces, wordDump setting a c = .ok () c' ∧
        pairs.flatMap (fun pair => [pair.1, pair.2]) ++ rest = bytes ∧ rest.length ≤ 1 ∧
        Dump.IsCut l.perLine pairs pieces ∧
        c.Wrote setting (l.allWordRows setting.scope.separator bigEndian pieces rest) c' ∧
        IsThrough c c' := by
  constructor
  · intro a ha
    exact ⟨_, _, (byteDump_eq ha).trans (run_dumpBytes hfaces hne), Dump.isCut_chunks _ _,
      isThrough_foldl hfaces hne (total_byteRows setting l bytes)⟩
  · intro a bigEndian ha
    obtain ⟨pairs, rest, rfl, hrest⟩ := exists_pairs bytes
    have htotal := total_allWordRows setting l bigEndian pairs hrest
    rw [← length_flatMap_pairs, ← List.length_append] at htotal
    exact ⟨_, pairs, rest, _, wordDump_writes hfaces hne hrest ha, rfl, hrest,
      Dump.isCut_chunks _ _, isThrough_foldl hfaces hne htotal⟩

/-- A buffer of five bytes, all of them in the window. -/
def fiveBytes : Setting :=
  ⟨⟨#[0x01, 0x80, 0xFF, 0x7F, 0x2A], 0, 0x8000, 5, by decide, by decide⟩, {}, Spectrum.charset,
    Spectrum.floats⟩

/-- A script over the five bytes. -/
def fiveBytesContext : Context := .start fiveBytes (.ofList []) ∅ 0x8000 0x8004

/-- The five bytes on lines of two, with gaps, and as words with an odd byte behind them. -/
theorem dumps_write_block_fiveBytes :
    (∃ c' pieces, byteDump fiveBytes ⟨"ByteDump", [.string "dec", .bool true],
        [("per_line", .int 2), ("gap", .int 1)]⟩ fiveBytesContext = .ok () c' ∧
      Dump.IsCut 2 [0x01, 0x80, 0xFF, 0x7F, 0x2A] pieces ∧
      fiveBytesContext.Wrote fiveBytes
        (pieces.map (Layout.byteRow ⟨"DEFB", 2, 1, .decimal, true⟩ "  ")) c' ∧
      IsThrough fiveBytesContext c') ∧
    ∃ c' pairs rest pieces, wordDump fiveBytes ⟨"WordDump", [],
        [("big_endian", .bool true), ("title", .string "DW")]⟩ fiveBytesContext = .ok () c' ∧
      pairs.flatMap (fun pair => [pair.1, pair.2]) ++ rest = [0x01, 0x80, 0xFF, 0x7F, 0x2A] ∧
      rest.length ≤ 1 ∧ Dump.IsCut 4 pairs pieces ∧
      fiveBytesContext.Wrote fiveBytes
        (Layout.allWordRows ⟨"DW", 4, 0, .hex, false⟩ "  " true pieces rest) c' ∧
      IsThrough fiveBytesContext c' := by
  have hfaces : fiveBytesContext.Faces fiveBytes [0x01, 0x80, 0xFF, 0x7F, 0x2A] :=
    ⟨rfl, rfl, rfl, rfl, by decide, by decide, ⟨rfl, rfl, rfl, rfl, rfl, trivial⟩⟩
  have hname : Base.ofName? "dec" = some .decimal := by decide +kernel
  have hbytes : Arguments.AsksBytes ⟨"ByteDump", [.string "dec", .bool true],
      [("per_line", .int 2), ("gap", .int 1)]⟩ .hex ⟨"DEFB", 2, 1, .decimal, true⟩ :=
    ⟨by simp [Arguments.base, Arguments.get?, hname], rfl, rfl, rfl, rfl⟩
  have hwords : Arguments.AsksWords ⟨"WordDump", [],
      [("big_endian", .bool true), ("title", .string "DW")]⟩ .hex true
      ⟨"DW", 4, 0, .hex, false⟩ := ⟨rfl, rfl, rfl, rfl, rfl, rfl⟩
  exact ⟨(dumps_write_block hfaces (by decide) _).1 _ hbytes,
    (dumps_write_block hfaces (by decide) _).2 _ _ hwords⟩

end Routine
end Disassembly
