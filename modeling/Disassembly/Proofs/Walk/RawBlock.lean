/-
# Blocks of raw bytes

The program for raw bytes is a single call of a dump (`run_rawBytes`). Over a block inside the
window that ends before the last address it writes the bytes of the block, eight on each line
(`dataBlock_rawBytes`); over a block that ends at the last address it never succeeds.
-/

import Disassembly.Proofs.Listing.Comments
import Disassembly.Proofs.Routine.Dump
import Disassembly.Proofs.Script.Evaluation
import Disassembly.Walk

namespace Disassembly

open Script Routine

/-- The dump that the program for raw bytes runs. -/
def rawLayout (setting : Setting) (base : Base) : Dump := byteLayout setting "DEFB" 8 0 base false

theorem byteDump_nil (setting : Setting) (routine : String) (c : Context) :
    byteDump setting ⟨routine, [], []⟩ c = (rawLayout setting c.format.base).run setting c := by
  have hbase : Arguments.base ⟨routine, [], []⟩ "format" 0 c.format.base = .ok c.format.base := rfl
  have hsigned : Arguments.bool ⟨routine, [], []⟩ "signed" 1 false = .ok false := rfl
  have hperLine : Arguments.count ⟨routine, [], []⟩ "per_line" 2 8 0xFFFF = .ok 8 := rfl
  have hgap : Arguments.count ⟨routine, [], []⟩ "gap" 3 0 0xFFFF = .ok 0 := rfl
  have htitle : Arguments.string ⟨routine, [], []⟩ "title" 4 "DEFB" = .ok "DEFB" := rfl
  rw [byteDump, bind_ok (get_apply c), hbase, ofExcept_ok, bind_ok (pure_apply _ _), hsigned,
    ofExcept_ok, bind_ok (pure_apply _ _), hperLine, ofExcept_ok, bind_ok (pure_apply _ _), hgap,
    ofExcept_ok, bind_ok (pure_apply _ _), htitle, ofExcept_ok, bind_ok (pure_apply _ _),
    rawLayout, byteLayout]

theorem call_byteDump (setting : Setting) :
    Routine.call setting "ByteDump" "" =
      (byteDump setting ⟨"ByteDump", [], []⟩ >>= fun _ => pure none) := by
  have hread : Arguments.read "ByteDump" "" = .ok ⟨"ByteDump", [], []⟩ := rfl
  have hname : "ByteDump".toLower = "bytedump" := by decide +kernel
  funext c
  rw [Routine.call, hread, ofExcept_ok, bind_ok (pure_apply _ _), hname]
  generalize byteDump setting ⟨"ByteDump", [], []⟩ = dump
  rfl

theorem scriptCall_byteDump (setting : Setting) (running : Running) :
    Script.call setting running ['B', 'y', 't', 'e', 'D', 'u', 'm', 'p', '(', ')'] =
      (byteDump setting ⟨"ByteDump", [], []⟩ >>= fun _ => pure (running, [])) := by
  have hsource : Source.call ['B', 'y', 't', 'e', 'D', 'u', 'm', 'p', '(', ')'] =
    .ok ("ByteDump", "", []) := rfl
  have hcall := call_byteDump setting
  generalize byteDump setting ⟨"ByteDump", [], []⟩ = dump at hcall ⊢
  funext c
  rw [Script.call, hsource, ofExcept_ok, bind_ok (pure_apply _ _)]
  simp only
  rw [hcall]
  simp only [bind_apply]
  cases dump c <;> simp

theorem toList_rawBytes : Preset.rawBytes.toList =
    '%' :: 'P' :: ['B', 'y', 't', 'e', 'D', 'u', 'm', 'p', '(', ')'] := by decide

/-- A routine call is a construct that never ends its block. -/
theorem construct_call (setting : Setting) (inner : Inner) (isNested : Bool) (running : Running)
    (cs : List Char) :
    construct setting inner isNested running ('P' :: cs) = do
      let (running, cs) ← Part.own (call setting running cs)
      return (.onward running, cs) := rfl

/-- **The program for raw bytes is one dump.** It fails only where the dump fails. -/
theorem run_rawBytes (setting : Setting) (c : Context) :
    Script.run setting Preset.rawBytes c =
      match (rawLayout setting c.format.base).run setting c with
      | .ok _ c' => .ok ⟨true, .onward⟩ c'
      | .error kind c' =>
        .error (locate Preset.rawBytes.toList Preset.rawBytes.toList kind c'.currentAddress)
          c' := by
  rw [← byteDump_nil setting "ByteDump", Script.run, toList_rawBytes]
  have hcall := scriptCall_byteDump setting {}
  generalize byteDump setting ⟨"ByteDump", [], []⟩ = dump at hcall ⊢
  have hskip : Source.skipNewline ('%' :: 'P' :: ['B', 'y', 't', 'e', 'D', 'u', 'm', 'p', '(', ')'])
    = '%' :: 'P' :: ['B', 'y', 't', 'e', 'D', 'u', 'm', 'p', '(', ')'] := by decide
  simp only [hskip, runBlock]
  rw [bind_apply, block_construct, construct_call, hcall]
  simp only [Part.located, Part.own, bind_apply, EStateM.adaptExcept]
  cases dump c with
  | ok _ c' => simp [block]
  | error kind c' => simp

/-- The items of a line without gaps are separated by commas. -/
theorem itemsText_zero (texts : List String) :
    Dump.itemsText 0 0 texts = String.intercalate "," texts := by
  have hrest (texts : List String) (index : Nat) (hindex : index ≠ 0) :
      Dump.itemsText 0 index texts = String.join (texts.map ("," ++ ·)) := by
    induction texts generalizing index with
    | nil => rw [Dump.itemsText, List.map_nil, String.join_nil]
    | cons text texts ih =>
      rw [Dump.itemsText, ih (index + 1) (by omega), List.map_cons, String.join_cons,
        Dump.itemSeparator, if_neg hindex, if_neg (by omega)]
  cases texts with
  | nil => rw [Dump.itemsText, String.intercalate_nil]
  | cons text texts =>
    rw [Dump.itemsText, hrest texts 1 Nat.one_ne_zero, Dump.itemSeparator, if_pos rfl,
      String.empty_append]
    induction texts generalizing text with
    | nil => rw [List.map_nil, String.join_nil, String.append_empty, String.intercalate_singleton]
    | cons text' texts ih =>
      rw [List.map_cons, String.join_cons, String.intercalate_cons_cons, ← ih text',
        String.append_assoc, String.append_assoc]

namespace Walk

/-- The line of raw bytes at an address, without comments. -/
def rawLine (scope : Scope) (address : Nat) (bytes : List UInt8) : Line :=
  { marker := some
      { address := UInt16.ofNat address
        base := scope.addressBase
        labels := scope.labels
        period := scope.labelPeriod
        data := true }
    body := .data ("DEFB" ++ scope.separator ++ String.intercalate ","
      (bytes.map fun b => Numeral.operand b.toNat .byte scope.numberBase false))
    lineAfter := scope.lineAfterJump
    separator := scope.separator }

/-- The context after a line of raw bytes. -/
def writeRawLine (setting : Setting) (base : Base) (c : Context) (bytes : List UInt8) : Context :=
  (rawLayout setting base).writeLine setting
    (bytes.map fun b => Numeral.operand b.toNat .byte base false) c

/-- The context after raw bytes have been written, eight on each line. -/
def writeRaw (setting : Setting) (base : Base) (bytes : List UInt8) (c : Context) : Context :=
  (Dump.chunks 8 bytes).foldl (writeRawLine setting base) c

/-- Lines of raw bytes leave no line open and do not move the end of the block. -/
theorem foldl_writeRawLine (setting : Setting) (base : Base) (pieces : List (List UInt8))
    {c : Context} (hline : c.line = none) :
    (pieces.foldl (writeRawLine setting base) c).line = none ∧
      (pieces.foldl (writeRawLine setting base) c).resume = c.resume := by
  induction pieces generalizing c with
  | nil => exact ⟨hline, rfl⟩
  | cons bytes pieces ih => exact ih (c := writeRawLine setting base c bytes) rfl

variable {m : Machine} {w : Walk} {cursor : Nat} {last : UInt16}

/-- The last address of a window. -/
theorem toNat_last : m.image.last.toNat = m.image.stop - 1 := by
  have := m.image.inSpace
  rw [Image.last, UInt16.toNat_ofNat']
  unfold Image.stop
  omega

/-- The first address after a block, which ends with the window at the latest. -/
def blockStop (m : Machine) (last : UInt16) : Nat := min last.toNat (m.image.stop - 1) + 1

/-- The bytes from the cursor to the end of a block. -/
def blockBytes (m : Machine) (cursor : Nat) (last : UInt16) : List UInt8 :=
  (m.image.windowFrom cursor).take (blockStop m last - cursor)

/-- The context after the bytes of a block have been written. -/
def rawDone (m : Machine) (w : Walk) (cursor : Nat) (last : UInt16) : Context :=
  writeRaw (w.setting m) w.scope.numberBase (blockBytes m cursor last) (w.context m cursor last)

/-- The last address of a block. -/
theorem toNat_min_last (m : Machine) (last : UInt16) :
    (min last m.image.last).toNat + 1 = blockStop m last := by
  rw [blockStop, ← toNat_last]
  change (if last ≤ m.image.last then last else m.image.last).toNat + 1 = _
  split
  · rename_i h
    rw [UInt16.le_iff_toNat_le] at h
    omega
  · rename_i h
    rw [UInt16.le_iff_toNat_le] at h
    omega

/-- A block that ends before the last address ends inside the address space. -/
theorem blockStop_lt (htop : min last m.image.last ≠ 0xFFFF) : blockStop m last < 0x10000 := by
  have hstop := toNat_min_last m last
  have hlt := (min last m.image.last).toNat_lt
  have hne : (min last m.image.last).toNat ≠ (0xFFFF : UInt16).toNat :=
    fun h => htop (UInt16.toNat_inj.1 h)
  simp at hne
  omega

/-- As many bytes are in a block as there are addresses. -/
theorem length_blockBytes (last : UInt16) (hlo : m.image.origin.toNat ≤ cursor)
    (hhi : cursor < m.image.stop) :
    (blockBytes m cursor last).length = blockStop m last - cursor := by
  rw [blockBytes, List.length_take, Image.length_windowFrom hlo (Nat.le_of_lt hhi)]
  unfold blockStop
  omega

/-- The cursor is an address as long as it is inside the window. -/
theorem toNat_cursor (hhi : cursor < m.image.stop) : (UInt16.ofNat cursor).toNat = cursor := by
  have := m.image.inSpace
  rw [UInt16.toNat_ofNat', Nat.mod_eq_of_lt]
  unfold Image.stop at hhi
  omega

/-- The dump over a block that ends before the last address writes its bytes. -/
theorem run_rawLayout (hlo : m.image.origin.toNat ≤ cursor) (hhi : cursor < m.image.stop)
    (hlast : cursor ≤ last.toNat) (htop : min last m.image.last ≠ 0xFFFF) :
    (rawLayout (w.setting m) w.scope.numberBase).run (w.setting m) (w.context m cursor last) =
      .ok () (rawDone m w cursor last) := by
  have hcursor := toNat_cursor hhi
  have hholds := Image.holds_windowFrom hlo (Nat.le_of_lt hhi)
  rw [← List.take_append_drop (blockStop m last - cursor) (m.image.windowFrom cursor),
    Image.holds_append] at hholds
  refine (run_byteLayout (blockBytes m cursor last) rfl rfl rfl htop ?_ ?_).trans ?_
  · change (UInt16.ofNat cursor).toNat + _ = (min last m.image.last).toNat + 1
    rw [hcursor, toNat_min_last, length_blockBytes last hlo hhi]
    unfold blockStop
    omega
  · change m.image.Holds (UInt16.ofNat cursor).toNat _
    rw [hcursor]
    exact hholds.1
  · rw [write_byteLayout]
    rfl

/-- **A block of raw bytes inside the window is dumped whole**, and the walk goes on behind it, if
it ends before the last address. -/
theorem dataBlock_rawBytes (hlo : m.image.origin.toNat ≤ cursor) (hhi : cursor < m.image.stop)
    (hlast : cursor ≤ last.toNat) (htop : min last m.image.last ≠ 0xFFFF) :
    w.dataBlock m cursor last Preset.rawBytes =
      .ok (blockStop m last,
        { w with
          overlay := (rawDone m w cursor last).overlay
          references := (rawDone m w cursor last).references
          lines := w.lines ++ (rawDone m w cursor last).lines }) := by
  obtain ⟨hline, hresume⟩ := foldl_writeRawLine (w.setting m) w.scope.numberBase
    (Dump.chunks 8 (blockBytes m cursor last)) (c := w.context m cursor last) rfl
  have hfinish : (rawDone m w cursor last).finish (w.setting m) = rawDone m w cursor last := by
    rw [Context.finish, show (rawDone m w cursor last).line = none from hline]
    rfl
  have hnext : max (rawDone m w cursor last).resume (cursor + 1) = blockStop m last := by
    rw [show (rawDone m w cursor last).resume = (min last m.image.last).toNat + 1 from hresume,
      toNat_min_last]
    unfold blockStop
    omega
  have hrun := run_rawLayout (w := w) hlo hhi hlast htop
  have hbase : (w.context m cursor last).format.base = w.scope.numberBase := rfl
  rw [dataBlock, run_rawBytes, hbase, hrun]
  simp only [hfinish, hnext]

/-- **A block of raw bytes up to the last address never succeeds.** -/
theorem dataBlock_rawBytes_ne_ok (htop : min last m.image.last = 0xFFFF) (next : Nat) (w' : Walk) :
    w.dataBlock m cursor last Preset.rawBytes ≠ .ok (next, w') := by
  intro h
  have hne (c : Context) :
      (byteLayout (w.setting m) "DEFB" 8 0 w.scope.numberBase false).run (w.setting m)
        (w.context m cursor last) ≠ .ok () c :=
    run_byteLayout_ne_ok rfl rfl htop c
  have hbase : (w.context m cursor last).format.base = w.scope.numberBase := rfl
  rw [dataBlock, run_rawBytes, hbase, rawLayout] at h
  split at h
  · simp at h
  · rename_i c hrun
    split at hrun
    · rename_i hok
      exact hne _ hok
    · simp at hrun

/-- **A block of raw bytes that is rendered is dumped whole.** -/
theorem dataBlock_rawBytes_eq_ok {next : Nat} {w' : Walk} (hlo : m.image.origin.toNat ≤ cursor)
    (hhi : cursor < m.image.stop) (hlast : cursor ≤ last.toNat)
    (h : w.dataBlock m cursor last Preset.rawBytes = .ok (next, w')) :
    next = blockStop m last ∧ w' =
      { w with
        overlay := (rawDone m w cursor last).overlay
        references := (rawDone m w cursor last).references
        lines := w.lines ++ (rawDone m w cursor last).lines } := by
  by_cases htop : min last m.image.last = 0xFFFF
  · exact absurd h (dataBlock_rawBytes_ne_ok htop next w')
  · rw [dataBlock_rawBytes hlo hhi hlast htop] at h
    obtain ⟨rfl, rfl⟩ := Prod.mk.inj (Except.ok.inj h)
    exact ⟨rfl, rfl⟩

/-- A dump of what is left of the window ends with the window. -/
theorem eq_stop_of_dataBlock_last {next : Nat} {w' : Walk} (hlo : m.image.origin.toNat ≤ cursor)
    (hhi : cursor < m.image.stop)
    (h : w.dataBlock m cursor m.image.last Preset.rawBytes = .ok (next, w')) :
    next = m.image.stop := by
  have hlast := toNat_last (m := m)
  obtain ⟨rfl, -⟩ := dataBlock_rawBytes_eq_ok hlo hhi (by omega) h
  unfold blockStop
  omega

end Walk
end Disassembly
