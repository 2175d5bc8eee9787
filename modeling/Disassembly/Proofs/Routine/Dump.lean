/-
# What a dump writes

A dump reads its block in units of as many bytes as an item takes, and writes a line for every
`perLine` units. Here that is said as a function of the units (`write`), and a dump over a block
that ends before the last address does exactly that (`lines_eq`): it fails neither by running out of
bytes nor by going round the address space. A dump of bytes over a block that ends at the last
address never comes to an end (`lines_ne_ok`), because the line after that address starts at zero
again.
-/

import Disassembly.Proofs.Image.Window
import Disassembly.Proofs.Script.Action
import Disassembly.Routine.Dump

namespace Disassembly

namespace Script.Context

variable (setting : Setting) (c : Context)

@[simp] theorem startLine_of_none (h : c.line = none) :
    c.startLine setting = { c with line := some ⟨c.marker setting, ""⟩ } := by
  simp [startLine, h]

theorem pushText_of_some (text : String) {line : OpenLine} (h : c.line = some line) :
    c.pushText setting text = { c with line := some ⟨line.marker, line.text ++ text⟩ } := by
  simp [pushText, h]

@[simp] theorem pushText_blockEnd (text : String) :
    (c.pushText setting text).blockEnd = c.blockEnd := by
  unfold pushText; split <;> rfl

@[simp] theorem pushText_emptied (text : String) :
    (c.pushText setting text).emptied = c.emptied := by
  unfold pushText; split <;> rfl

@[simp] theorem startLine_blockEnd : (c.startLine setting).blockEnd = c.blockEnd := by
  unfold startLine; split <;> rfl

@[simp] theorem startLine_emptied : (c.startLine setting).emptied = c.emptied := by
  unfold startLine; split <;> rfl

@[simp] theorem endLine_blockEnd : (c.endLine setting).blockEnd = c.blockEnd := by
  unfold endLine; split <;> rfl

@[simp] theorem endLine_emptied : (c.endLine setting).emptied = c.emptied := by
  unfold endLine; split <;> rfl

@[simp] theorem endLine_lineOffset : (c.endLine setting).lineOffset = 0 := by
  unfold endLine; split <;> rfl

/-- Moving on does not wrap below the top of the address space. -/
theorem toNat_lineOffset_advance (bytes : Nat) (h : c.lineOffset.toNat + bytes < 0x10000) :
    (c.advance bytes).lineOffset.toNat = c.lineOffset.toNat + bytes := by
  have hb : bytes < 65536 := by omega
  simp only [advance, UInt16.toNat_add, UInt16.toNat_ofNat']
  omega

end Script.Context

namespace Routine
namespace Dump

open Script

/-- The text of the items of a line, from the one at `index` on. -/
def itemsText (gap : Nat) : Nat → List String → String
  | _, [] => ""
  | index, text :: texts => itemSeparator index gap ++ text ++ itemsText gap (index + 1) texts

/-- The text of a line with the given items. -/
def lineText (setting : Setting) (d : Dump) (texts : List String) : String :=
  d.title ++ setting.scope.separator ++ itemsText d.gap 0 texts

/-- Write a line with the given items, and move past their bytes. -/
def writeLine (setting : Setting) (d : Dump) (texts : List String) (c : Context) : Context :=
  { c with
    line := some ⟨c.marker setting, d.lineText setting texts⟩
    lineOffset := UInt16.ofNat (d.size * texts.length) }.endLine setting

/-- A list cut into pieces of `n`, the last one perhaps shorter; in one piece if `n` is zero. -/
def chunks {α : Type} (n : Nat) : List α → List (List α)
  | [] => []
  | x :: xs =>
    if n = 0 then [x :: xs] else (x :: xs.take (n - 1)) :: chunks n (xs.drop (n - 1))
  termination_by xs => xs.length
  decreasing_by simp only [List.length_drop, List.length_cons]; omega

/-- Write the units of a block, `perLine` on each line. -/
def write (setting : Setting) (d : Dump) (render : List UInt8 → String)
    (units : List (List UInt8)) (c : Context) : Context :=
  (chunks d.perLine units).foldl (fun c us => d.writeLine setting (us.map render) c) c

/-- The items of a dump are the renderings of the bytes they take. -/
structure Reads (setting : Setting) (d : Dump) (render : List UInt8 → String) : Prop where
  size_pos : 0 < d.size
  item : ∀ (c : Context) (bs : List UInt8), bs.length = d.size →
    setting.image.Holds c.position bs → c.lineOffset.toNat + d.size < 0x10000 →
      d.item c = .ok (render bs) (c.advance d.size)

variable {setting : Setting} {d : Dump} {render : List UInt8 → String}

/-- **The items of a line are the renderings of its units.** The units are those up to the end of
the line or of the block, whichever comes first. -/
theorem items_eq (hd : d.Reads setting render) (units : List (List UInt8)) :
    ∀ (fuel index : Nat) (c : Context) (line : OpenLine), c.line = some line →
      (∀ u ∈ units, u.length = d.size) → setting.image.Holds c.position units.flatten →
      c.lineOffset.toNat + d.size * units.length < 0x10000 → units.length < fuel →
      d.size * units.length ≤ c.remaining → (d.perLine = 0 ∨ index + units.length ≤ d.perLine) →
      (c.remaining < d.size * (units.length + 1) ∨
        d.perLine ≠ 0 ∧ index + units.length = d.perLine) →
      d.items setting fuel index c = .ok ()
        { c with
          line := some ⟨line.marker, line.text ++ itemsText d.gap index (units.map render)⟩
          lineOffset := c.lineOffset + UInt16.ofNat (d.size * units.length) } := by
  induction units with
  | nil =>
    intro fuel index c line hline _ _ _ hfuel _ _ hend
    obtain ⟨fuel, rfl⟩ : ∃ k, fuel = k + 1 := ⟨fuel - 1, by simp at hfuel; omega⟩
    have hstop : ¬(d.size ≤ c.remaining ∧ (d.perLine = 0 ∨ index < d.perLine)) := by
      simp only [List.length_nil] at hend
      omega
    rw [items, bind_apply, get_apply]
    simp only [hstop, if_false, pure_apply, List.map_nil, itemsText, String.append_empty,
      List.length_nil, Nat.mul_zero]
    simp [← hline]
  | cons u units ih =>
    intro fuel index c line hline hsize hholds hwrap hfuel hroom hfull hend
    obtain ⟨fuel, rfl⟩ : ∃ k, fuel = k + 1 := ⟨fuel - 1, by simp at hfuel; omega⟩
    have hu : u.length = d.size := hsize u List.mem_cons_self
    rw [List.flatten_cons, Image.holds_append, hu] at hholds
    rw [List.length_cons, Nat.mul_add, Nat.mul_one] at hwrap hroom
    rw [List.length_cons] at hfuel hfull hend
    have hgo : d.size ≤ c.remaining ∧ (d.perLine = 0 ∨ index < d.perLine) := by omega
    have hoff := c.toNat_lineOffset_advance d.size (by omega)
    let c₁ : Context := { c.advance d.size with
      line := some ⟨line.marker, line.text ++ itemSeparator index d.gap ++ render u⟩ }
    have hpos : c₁.position = c.position + d.size := by
      change c.lineStart.toNat + (c.advance d.size).lineOffset.toNat = _
      rw [hoff, Context.position, Nat.add_assoc]
    have hrem : c₁.remaining = c.remaining - d.size := by
      change c.resume - c₁.position = c.resume - c.position - d.size
      rw [hpos, Nat.sub_sub]
    have hrest := ih fuel (index + 1) c₁ ⟨line.marker, _⟩ rfl
      (fun v hv => hsize v (List.mem_cons_of_mem _ hv)) (by rw [hpos]; exact hholds.2)
      (by change (c.advance d.size).lineOffset.toNat + _ < _; omega) (by omega)
      (by rw [hrem]; omega) (by omega)
      (by rw [hrem]; simp only [Nat.mul_add, Nat.mul_one] at hend ⊢; omega)
    have hpush : ((c.advance d.size).pushText setting (itemSeparator index d.gap)).pushText setting
        (render u) = c₁ := by
      rw [(c.advance d.size).pushText_of_some setting _ hline, Context.pushText_of_some _ _ _ rfl]
    have hstep : d.items setting (fuel + 1) index c = d.items setting fuel (index + 1) c₁ := by
      rw [items, bind_apply, get_apply]
      simp only [hgo, if_true, and_self]
      rw [bind_ok (hd.item c u hu hholds.1 (by omega)), bind_ok (modify_apply _ _), hpush]
    refine hstep.trans (hrest.trans ?_)
    simp only [c₁, Context.advance, List.map_cons, itemsText, List.length_cons, Nat.mul_add,
      Nat.mul_one, String.append_assoc, UInt16.add_assoc, ← UInt16.ofNat_add, Nat.add_comm d.size]

/-- Units of one size have as many bytes together as their number times their size. -/
theorem length_flatten_units {size : Nat} {units : List (List UInt8)}
    (h : ∀ u ∈ units, u.length = size) : units.flatten.length = size * units.length := by
  induction units with
  | nil => rfl
  | cons u units ih =>
    rw [List.flatten_cons, List.length_append, h u List.mem_cons_self,
      ih fun v hv => h v (List.mem_cons_of_mem _ hv), List.length_cons, Nat.mul_add]
    omega

/-- **A list is cut off at `n` items.** The first piece is not empty, and only a piece that is the
last can be shorter than `n`. -/
theorem exists_chunks_cons {α : Type} (n : Nat) (x : α) (xs : List α) :
    ∃ us rest, us ++ rest = x :: xs ∧ us ≠ [] ∧ chunks n (x :: xs) = us :: chunks n rest ∧
      (n = 0 ∨ us.length ≤ n) ∧ (rest = [] ∨ n ≠ 0 ∧ us.length = n) := by
  by_cases hn : n = 0
  · refine ⟨x :: xs, [], List.append_nil _, List.cons_ne_nil _ _, ?_, Or.inl hn, Or.inl rfl⟩
    simp only [chunks, if_pos hn]
  · refine ⟨x :: xs.take (n - 1), xs.drop (n - 1), ?_, List.cons_ne_nil _ _, ?_, Or.inr ?_, ?_⟩
    · rw [List.cons_append, List.take_append_drop]
    · rw [chunks, if_neg hn]
    · rw [List.length_cons, List.length_take]; omega
    · rw [List.drop_eq_nil_iff, List.length_cons, List.length_take]; omega

/-- A list that is short enough is one piece. -/
theorem chunks_of_length_le {α : Type} {n : Nat} {xs : List α} (hne : xs ≠ [])
    (hlength : xs.length ≤ n) : chunks n xs = [xs] := by
  match xs, hne with
  | x :: xs, _ =>
    rw [List.length_cons] at hlength
    rw [chunks, if_neg (by omega), List.take_of_length_le (by omega),
      List.drop_of_length_le (by omega), chunks]

/-- Behind a full piece the rest of a list is cut off in the same way. -/
theorem chunks_append {α : Type} {n : Nat} {xs : List α} (hne : xs ≠ []) (hlength : xs.length = n)
    (ys : List α) : chunks n (xs ++ ys) = xs :: chunks n ys := by
  match xs, hne with
  | x :: xs, _ =>
    rw [List.length_cons] at hlength
    rw [List.cons_append, chunks, if_neg (by omega), List.take_left' (by omega),
      List.drop_left' (by omega)]

/-- The pieces of a list put together are the list. -/
theorem flatten_chunks {α : Type} (n : Nat) (xs : List α) : (chunks n xs).flatten = xs := by
  fun_induction chunks n xs with
  | case1 => rfl
  | case2 x xs hn => rw [List.flatten_cons, List.flatten_nil, List.append_nil]
  | case3 x xs hn ih => rw [List.flatten_cons, ih, List.cons_append, List.take_append_drop]

/-- No piece of a list is empty. -/
theorem ne_nil_of_mem_chunks {α : Type} {n : Nat} {xs us : List α} (h : us ∈ chunks n xs) :
    us ≠ [] := by
  fun_induction chunks n xs with
  | case1 => simp at h
  | case2 x xs hn => rw [List.mem_singleton.1 h]; exact List.cons_ne_nil _ _
  | case3 x xs hn ih =>
    rcases List.mem_cons.1 h with rfl | h
    · exact List.cons_ne_nil _ _
    · exact ih h

/-- The pieces of a list are changed with its items. -/
theorem chunks_map {α β : Type} (f : α → β) (n : Nat) (xs : List α) :
    chunks n (xs.map f) = (chunks n xs).map (List.map f) := by
  fun_induction chunks n xs with
  | case1 => rw [List.map_nil, chunks, List.map_nil]
  | case2 x xs hn => rw [List.map_cons, chunks, if_pos hn, List.map_singleton, List.map_cons]
  | case3 x xs hn ih =>
    rw [List.map_cons, chunks, if_neg hn, ← List.map_take, ← List.map_drop, ih, List.map_cons,
      List.map_cons]

/-- A line that has been written is not under construction any more. -/
@[simp] theorem writeLine_line (texts : List String) (c : Context) :
    (d.writeLine setting texts c).line = none := rfl

@[simp] theorem writeLine_lineOffset (texts : List String) (c : Context) :
    (d.writeLine setting texts c).lineOffset = 0 := rfl

@[simp] theorem writeLine_resume (texts : List String) (c : Context) :
    (d.writeLine setting texts c).resume = c.resume := rfl

/-- The next line starts behind the bytes of a line. -/
theorem toNat_lineStart_writeLine (setting : Setting) (d : Dump) {texts : List String} {c : Context}
    (h : c.lineStart.toNat + d.size * texts.length < 0x10000) :
    (d.writeLine setting texts c).lineStart.toNat =
      c.lineStart.toNat + d.size * texts.length := by
  change (c.lineStart + UInt16.ofNat (d.size * texts.length)).toNat = _
  rw [UInt16.toNat_add, UInt16.toNat_ofNat']
  omega

/-- **One line of a dump holds the units up to its end or to the end of the block.** -/
theorem line_eq (hd : d.Reads setting render) {us : List (List UInt8)} {c : Context}
    (hline : c.line = none) (hoffset : c.lineOffset = 0) (hsize : ∀ u ∈ us, u.length = d.size)
    (hholds : setting.image.Holds c.lineStart.toNat us.flatten)
    (htop : d.size * us.length < 0x10000) (hroom : d.size * us.length ≤ c.remaining)
    (hfull : d.perLine = 0 ∨ us.length ≤ d.perLine)
    (hend : c.remaining < d.size * (us.length + 1) ∨ d.perLine ≠ 0 ∧ us.length = d.perLine)
    (fuel : Nat) (hgo : d.size ≤ c.remaining) :
    d.lines setting (fuel + 1) c =
      d.lines setting fuel (d.writeLine setting (us.map render) c) := by
  have hlimit : us.length < limit := by
    have := Nat.le_mul_of_pos_left us.length hd.size_pos
    unfold limit; omega
  have hopen : ((c.startLine setting).pushText setting d.title).pushSeparator setting =
      { c with line := some ⟨c.marker setting, d.title ++ setting.scope.separator⟩ } := by
    rw [c.startLine_of_none setting hline, Context.pushSeparator,
      Context.pushText_of_some _ _ _ rfl,
      Context.pushText_of_some _ _ _ rfl, String.empty_append]
  have hpos : c.position = c.lineStart.toNat := by simp [Context.position, hoffset]
  have hitems := items_eq hd us limit 0
    { c with line := some ⟨c.marker setting, d.title ++ setting.scope.separator⟩ } _ rfl hsize
    (by change setting.image.Holds c.position _; rwa [hpos])
    (by change c.lineOffset.toNat + _ < _; rw [hoffset]; simpa using htop) hlimit hroom
    (by rwa [Nat.zero_add]) (by rwa [Nat.zero_add])
  rw [lines, bind_apply, get_apply]
  simp only [hgo, if_true]
  rw [bind_ok (modify_apply _ _), hopen, bind_ok hitems, bind_ok (modify_apply _ _)]
  congr 1
  simp only [writeLine, lineText, hoffset, UInt16.zero_add, List.length_map]

/-- **A dump writes its units, so many on each line.** The block ends within a unit of the last one,
and before the top of the address space. -/
theorem lines_eq (hd : d.Reads setting render) :
    ∀ (fuel : Nat) (units : List (List UInt8)) (c : Context), c.line = none → c.lineOffset = 0 →
      (∀ u ∈ units, u.length = d.size) → setting.image.Holds c.lineStart.toNat units.flatten →
      c.lineStart.toNat + d.size * units.length < 0x10000 → units.length < fuel →
      d.size * units.length ≤ c.remaining → c.remaining < d.size * (units.length + 1) →
      d.lines setting fuel c = .ok () (d.write setting render units c) := by
  intro fuel
  induction fuel with
  | zero => intro units c _ _ _ _ _ hfuel; omega
  | succ fuel ih =>
    intro units c hline hoffset hsize hholds htop hfuel hroom hend
    match units with
    | [] =>
      have hstop : ¬d.size ≤ c.remaining := by simp only [List.length_nil] at hend; omega
      rw [lines, bind_apply, get_apply]
      simp only [hstop, if_false, pure_apply]
      rw [write, chunks, List.foldl_nil]
    | u :: units =>
      obtain ⟨us, rest, happ, hne, hchunks, hfull, hlast⟩ := exists_chunks_cons d.perLine u units
      rw [write, hchunks, List.foldl_cons]
      rw [← happ] at hsize hholds htop hfuel hroom hend
      have hus : ∀ v ∈ us, v.length = d.size := fun v hv => hsize v (List.mem_append_left _ hv)
      have hrest : ∀ v ∈ rest, v.length = d.size := fun v hv => hsize v (List.mem_append_right _ hv)
      have hpos := List.length_pos_iff.2 hne
      rw [List.flatten_append, Image.holds_append, length_flatten_units hus] at hholds
      rw [List.length_append] at hfuel
      simp only [List.length_append, Nat.mul_add, Nat.mul_one] at htop hroom hend
      have hgo : d.size * 1 ≤ d.size * us.length := Nat.mul_le_mul_left _ hpos
      have hnext : (d.writeLine setting (us.map render) c).lineStart.toNat =
          c.lineStart.toNat + d.size * us.length := by
        rw [toNat_lineStart_writeLine] <;> rw [List.length_map]
        omega
      have hrem : (d.writeLine setting (us.map render) c).remaining =
          c.remaining - d.size * us.length := by
        simp only [Context.remaining, Context.position, writeLine_resume, hnext,
          writeLine_lineOffset, hoffset, UInt16.toNat_zero]
        omega
      rw [line_eq hd hline hoffset hus hholds.1 (by omega) (by omega) hfull
        (by rcases hlast with rfl | h
            · simp only [List.length_nil, Nat.mul_add, Nat.mul_one] at hend ⊢; omega
            · exact Or.inr h) fuel (by omega)]
      exact ih rest _ rfl rfl hrest (by rw [hnext]; exact hholds.2) (by rw [hnext]; omega)
        (by omega)
        (by rw [hrem]; omega) (by rw [hrem, Nat.mul_add]; omega)

/-- Writing items does not move the end of the block. -/
theorem items_blockEnd
    (hitem : ∀ c text c', d.item c = .ok text c' →
      c'.blockEnd = c.blockEnd ∧ c'.emptied = c.emptied) :
    ∀ (fuel index : Nat) (c c' : Context), d.items setting fuel index c = .ok () c' →
      c'.blockEnd = c.blockEnd ∧ c'.emptied = c.emptied := by
  intro fuel
  induction fuel with
  | zero => intro index c c' h; simp [items] at h
  | succ fuel ih =>
    intro index c c' h
    rw [items, bind_apply, get_apply] at h
    simp only at h
    split at h
    · obtain ⟨text, c₁, h₁, h⟩ := bind_eq_ok h
      rw [bind_ok (modify_apply _ _)] at h
      obtain ⟨hend, hempty⟩ := ih _ _ _ h
      obtain ⟨hend₁, hempty₁⟩ := hitem _ _ _ h₁
      simp only [Context.pushText_blockEnd, Context.pushText_emptied] at hend hempty
      exact ⟨hend.trans hend₁, hempty.trans hempty₁⟩
    · simp only [pure_apply, EStateM.Result.ok.injEq, true_and] at h
      exact h ▸ ⟨rfl, rfl⟩

/-- **A dump of bytes over a block up to the last address does not come to an end.** Wherever a line
starts, there is a byte left to write. -/
theorem lines_ne_ok
    (hitem : ∀ c text c', d.item c = .ok text c' →
      c'.blockEnd = c.blockEnd ∧ c'.emptied = c.emptied) (hsize : d.size = 1) :
    ∀ (fuel : Nat) (c c' : Context), c.lineOffset = 0 → c.blockEnd = 0xFFFF → c.emptied = false →
      d.lines setting fuel c ≠ .ok () c' := by
  intro fuel
  induction fuel with
  | zero => intro c c' _ _ _ h; simp [lines] at h
  | succ fuel ih =>
    intro c c' hoffset hend hempty h
    have hlt : c.lineStart.toNat < 0x10000 := c.lineStart.toNat_lt
    have hgo : d.size ≤ c.remaining := by
      rw [hsize]
      simp [Context.remaining, Context.resume, Context.position, hempty, hend, hoffset]
      omega
    rw [lines, bind_apply, get_apply] at h
    simp only [hgo, if_true] at h
    rw [bind_ok (modify_apply _ _)] at h
    obtain ⟨_, c₁, h₁, h⟩ := bind_eq_ok h
    rw [bind_ok (modify_apply _ _)] at h
    obtain ⟨hend₁, hempty₁⟩ := items_blockEnd hitem _ _ _ _ h₁
    simp only [Context.pushSeparator, Context.pushText_blockEnd, Context.pushText_emptied,
      Context.startLine_blockEnd, Context.startLine_emptied] at hend₁ hempty₁
    exact ih _ c' (by simp) (by simp [hend₁, hend]) (by simp [hempty₁, hempty]) h

end Dump

open Script

/-- The next byte of an image is read and left behind. -/
theorem nextByte_eq {setting : Setting} {c : Context} {b : UInt8}
    (h : setting.image.byte? c.position = some b) :
    Action.nextByte setting c = .ok b (c.advance 1) := by
  have hread : Action.readByte setting c.position = pure b := by rw [Action.readByte, h]
  rw [Action.nextByte, bind_ok (get_apply c), hread]
  rfl

/-- A byte that is read is left behind. -/
theorem eq_advance_of_nextByte {setting : Setting} {c c' : Context} {b : UInt8}
    (h : Action.nextByte setting c = .ok b c') : c' = c.advance 1 := by
  cases hb : setting.image.byte? c.position with
  | some b' =>
    rw [nextByte_eq hb] at h
    exact (EStateM.Result.ok.inj h).2.symm
  | none =>
    have hread : Action.readByte setting c.position = throw (.outOfRange c.position) := by
      rw [Action.readByte, hb]
    rw [Action.nextByte, bind_ok (get_apply c), hread] at h
    exact absurd h (by simp [bind_apply])

/-- The dump of bytes with the given layout. -/
def byteLayout (setting : Setting) (title : String) (perLine gap : Nat) (base : Base)
    (signed : Bool) : Dump :=
  { title, perLine, gap, size := 1, item := byteItem setting base signed }

/-- The items of a dump of bytes are the bytes as numbers. -/
theorem reads_byteLayout (setting : Setting) (title : String) (perLine gap : Nat) (base : Base)
    (signed : Bool) :
    (byteLayout setting title perLine gap base signed).Reads setting
      fun bs => Numeral.operand (bs.headD 0).toNat .byte base signed where
  size_pos := Nat.one_pos
  item c bs hlen hholds _ := by
    obtain ⟨b, rfl⟩ := List.length_eq_one_iff.1 hlen
    change byteItem setting base signed c = _
    rw [byteItem, bind_ok (nextByte_eq hholds.1), pure_apply]
    rfl

/-- Reading a byte does not move the end of the block. -/
theorem byteItem_blockEnd {setting : Setting} {base : Base} {signed : Bool} {c c' : Context}
    {text : String} (h : byteItem setting base signed c = .ok text c') :
    c'.blockEnd = c.blockEnd ∧ c'.emptied = c.emptied := by
  obtain ⟨b, c₁, h₁, h⟩ := bind_eq_ok h
  obtain rfl := eq_advance_of_nextByte h₁
  obtain ⟨-, rfl⟩ := EStateM.Result.ok.inj h
  exact ⟨rfl, rfl⟩

/-- **A dump of bytes writes the bytes of its block**, if the block ends before the last address. -/
theorem run_byteLayout {setting : Setting} {title : String} {perLine gap : Nat} {base : Base}
    {signed : Bool} (bytes : List UInt8) {c : Context} (hline : c.line = none)
    (hoffset : c.lineOffset = 0) (hempty : c.emptied = false) (htop : c.blockEnd ≠ 0xFFFF)
    (hlen : c.lineStart.toNat + bytes.length = c.blockEnd.toNat + 1)
    (hholds : setting.image.Holds c.lineStart.toNat bytes) :
    (byteLayout setting title perLine gap base signed).run setting c = .ok ()
      ((byteLayout setting title perLine gap base signed).write setting
        (fun bs => Numeral.operand (bs.headD 0).toNat .byte base signed)
        (bytes.map fun b => [b]) c) := by
  have hend : c.blockEnd.toNat < 0xFFFF := by
    have := c.blockEnd.toNat_lt
    have : c.blockEnd.toNat ≠ (0xFFFF : UInt16).toNat := fun h => htop (UInt16.toNat_inj.1 h)
    simp at this
    omega
  have hrem : c.remaining = bytes.length := by
    simp [Context.remaining, Context.resume, Context.position, hempty, hoffset]
    omega
  refine Dump.lines_eq (reads_byteLayout ..) _ _ c hline hoffset ?_ ?_ ?_ ?_ ?_ ?_
  · intro u hu
    obtain ⟨b, -, rfl⟩ := List.mem_map.1 hu
    rfl
  · rwa [← List.flatMap_def, List.flatMap_singleton']
  · simp [byteLayout]; omega
  · simp [Dump.limit]; omega
  · simp [byteLayout, hrem]
  · simp [byteLayout, hrem]

/-- A dump of bytes writes so many bytes on each line. -/
theorem write_byteLayout (setting : Setting) (title : String) (perLine gap : Nat) (base : Base)
    (signed : Bool) (bytes : List UInt8) (c : Context) :
    (byteLayout setting title perLine gap base signed).write setting
        (fun bs => Numeral.operand (bs.headD 0).toNat .byte base signed)
        (bytes.map fun b => [b]) c =
      (Dump.chunks perLine bytes).foldl (fun c bs =>
        (byteLayout setting title perLine gap base signed).writeLine setting
          (bs.map fun b => Numeral.operand b.toNat .byte base signed) c) c := by
  rw [Dump.write, Dump.chunks_map, List.foldl_map]
  simp only [List.map_map, byteLayout]
  rfl

/-- **A dump of bytes over a block up to the last address never succeeds.** -/
theorem run_byteLayout_ne_ok {setting : Setting} {title : String} {perLine gap : Nat} {base : Base}
    {signed : Bool} {c : Context} (hoffset : c.lineOffset = 0) (hempty : c.emptied = false)
    (htop : c.blockEnd = 0xFFFF) (c' : Context) :
    (byteLayout setting title perLine gap base signed).run setting c ≠ .ok () c' :=
  Dump.lines_ne_ok (fun _ _ _ => byteItem_blockEnd) rfl _ c c' hoffset htop hempty

end Routine
end Disassembly
