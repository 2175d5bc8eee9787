/-
# Templates are filled in

A template marks its operands by runs of lower-case letters. An instruction is its template with
every run replaced, all at once, by the operand that the next operand bytes stand for
(`decode_substitutes`). The table is checked once, opcode by opcode, for what this rests on
(`select_wellMarked`): apart from the runs no letter is in lower case, two runs do not touch, and
a plus sign stands only where a displacement brings its own. Numbers are written without lower-case
letters, so nothing that is filled in looks like a run, and replacing the runs one after the other in
a fixed order of letters gives the same text (`replaceInTurn_template`).
-/

import Disassembly.Proofs.Numeral.Letters
import Disassembly.Proofs.Z80.Sweep

namespace Disassembly
namespace Z80

variable {bytes : List UInt8} {address : UInt16} {base : Base} {i : Instruction}

/-! ### Reading a template -/

/-- A part of a template: a character that stands for itself, or a run of lower-case letters, which
stands for an operand. -/
inductive Segment
  | char (c : Char)
  | run (letters : List Char)
  deriving DecidableEq

/-- A template read from left to right, its runs as long as they can be. -/
def segments : List Char → List Segment
  | [] => []
  | c :: cs =>
    if c.isLower then
      match segments cs with
      | .run letters :: rest => .run (c :: letters) :: rest
      | rest => .run [c] :: rest
    else .char c :: segments cs

/-- The operand that a run stands for, read from the front of the bytes, and the bytes behind it.
`register` is the index register, and the instruction is at `address` and has `length` bytes. -/
def readRun (register : Option IndexRegister) (address : UInt16) (length : Nat) :
    List Char → List UInt8 → Option (Operand × List UInt8)
  | ['d'], b :: rest => register.map fun r => (.displacement r b.toInt8, rest)
  | ['j'], b :: rest =>
    some (.relative (UInt16.ofInt (address.toNat + length + b.toInt8.toInt)), rest)
  | ['a', 'a'], low :: high :: rest =>
    some (.address (UInt16.ofNat (low.toNat + 0x100 * high.toNat)), rest)
  | ['n', 'n'], low :: high :: rest =>
    some (.number (UInt16.ofNat (low.toNat + 0x100 * high.toNat)), rest)
  | ['n'], b :: rest => some (.immediate b, rest)
  | _, _ => none

/-- The operands that the runs of a template stand for, from left to right, which use up the
bytes. -/
def readRuns (register : Option IndexRegister) (address : UInt16) (length : Nat) :
    List Segment → List UInt8 → Option (List Operand)
  | [], bytes => if bytes = [] then some [] else none
  | .char _ :: rest, bytes => readRuns register address length rest bytes
  | .run letters :: rest, bytes =>
    (readRun register address length letters bytes).bind fun (operand, bytes) =>
      (readRuns register address length rest bytes).map (operand :: ·)

/-- A template with an operand in place of each run. The plus sign of `+d` goes with the run. -/
def substitute (base : Base) : List Segment → List Operand → List Char
  | [], _ => []
  | .char c :: rest, operands =>
    if c = '+' ∧ rest.head? = some (.run ['d']) then substitute base rest operands
    else c :: substitute base rest operands
  | .run letters :: rest, [] => letters ++ substitute base rest []
  | .run _ :: rest, operand :: operands =>
    (operand.render base).toList ++ substitute base rest operands

/-- The index register that the first byte of an instruction selects. -/
def indexRegister? (bytes : List UInt8) : Option IndexRegister :=
  if bytes.head? = some 0xDD then some .ix
  else if bytes.head? = some 0xFD then some .iy
  else none

/-- The bytes of an instruction that stand for operands: those behind the bytes that select the
opcode, and behind an index byte and `CB` the one in front of the opcode byte. -/
def operandPart : List UInt8 → List UInt8
  | [] => []
  | first :: rest =>
    if first = 0xDD ∨ first = 0xFD then
      if rest.head? = some 0xCB then (rest.drop 1).take 1 else rest.drop 1
    else if first = 0xCB ∨ first = 0xED then rest.drop 1
    else rest

/-! ### What the table is checked for -/

/-- Whether a character is neither a lower-case letter nor a plus sign. -/
def isLiteral (c : Char) : Bool := !c.isLower && c != '+'

/-- Whether a byte is neither that of a lower-case letter nor that of a plus sign. -/
def isLiteralByte (b : UInt8) : Bool := (b < 97 || 122 < b) && b != 43

theorem toList_toByteArray (s : String) :
    s.toByteArray.data.toList = s.toList.flatMap String.utf8EncodeChar := by
  rw [← String.utf8Encode_toList, List.utf8Encode]
  simp

/-- A text can be checked byte by byte, which takes much less evaluation than its characters do. -/
theorem isLiteral_of_mem {s : String} (h : s.toByteArray.data.toList.all isLiteralByte = true)
    {c : Char} (hc : c ∈ s.toList) : isLiteral c = true := by
  refine Decidable.byContradiction fun hmark => ?_
  have hval : (97 ≤ c.val.toNat ∧ c.val.toNat ≤ 122) ∨ c.val.toNat = 43 := by
    rw [isLiteral, Bool.and_eq_true, Decidable.not_and_iff_not_or_not] at hmark
    rcases hmark with hlower | hplus
    · exact .inl ((Numeral.isLower_iff c).1 (by simpa using hlower))
    · obtain rfl : c = '+' := by simpa using hplus
      exact .inr rfl
  have hsize : c.utf8Size = 1 := by
    rw [Char.utf8Size_eq_one_iff, UInt32.le_iff_toNat_le]
    change c.val.toNat ≤ 127
    omega
  have hbyte : c.val.toUInt8 ∈ s.toByteArray.data.toList := by
    rw [toList_toByteArray]
    refine List.mem_flatMap.2 ⟨c, hc, ?_⟩
    rw [String.utf8EncodeChar_eq_singleton hsize]
    exact List.mem_singleton_self _
  have htoNat : c.val.toUInt8.toNat = c.val.toNat := by
    rw [UInt32.toNat_toUInt8]
    omega
  have hliteral := List.all_eq_true.1 h _ hbyte
  simp only [isLiteralByte, Bool.and_eq_true, Bool.or_eq_true, decide_eq_true_eq, bne_iff_ne, ne_eq,
    UInt8.lt_iff_toNat_lt, ← UInt8.toNat_inj, htoNat] at hliteral
  change (c.val.toNat < 97 ∨ 122 < c.val.toNat) ∧ ¬c.val.toNat = 43 at hliteral
  omega

/-- Whether the parts begin with something that ends a run. -/
def endsRun : List Piece → Bool
  | [] => true
  | .text s :: _ => s != ""
  | .hole _ :: _ => false

/-- Whether a displacement is from the index register that is selected. -/
def Hole.isFrom (register : Option IndexRegister) : Hole → Bool
  | displacement r => register == some r
  | _ => true

/-- Whether the holes of a form are the runs of its template. -/
def isLegible (register : Option IndexRegister) : List Piece → Bool
  | [] => true
  | .text s :: ps => s.toByteArray.data.toList.all isLiteralByte && isLegible register ps
  | .hole h :: ps => h.isFrom register && endsRun ps && isLegible register ps

/-- The holes of a form, from left to right. -/
def holes (ps : List Piece) : List Hole :=
  ps.filterMap fun
    | .text _ => none
    | .hole h => some h

/-- Whether there is at most one hole, but for a byte behind a displacement. -/
def areInTurn : List Hole → Bool
  | [] | [_] | [.displacement _, .byte] => true
  | _ => false

theorem areInTurn_cases {hs : List Hole} (hturn : areInTurn hs = true) :
    hs = [] ∨ (∃ h, hs = [h]) ∨ ∃ r, hs = [.displacement r, .byte] := by
  unfold areInTurn at hturn
  split at hturn
  · exact .inl rfl
  · exact .inr (.inl ⟨_, rfl⟩)
  · exact .inr (.inr ⟨_, rfl⟩)
  · cases hturn

/-- Whether a form is marked as the decoder takes it to be. -/
def isWellMarked (register : Option IndexRegister) (o : Opcode) : Bool :=
  isLegible register o.form.pieces && areInTurn (holes o.form.pieces)

theorem unprefixed_wellMarked {op : UInt8} {o : Opcode} (h : unprefixed op = some o) :
    isWellMarked none o = true := by
  have hall : ∀ n < 256, (unprefixed (UInt8.ofNat n)).all (isWellMarked none) = true := by
    decide +kernel
  have hop := forall_byte (p := fun op => (unprefixed op).all (isWellMarked none) = true) hall op
  rwa [h] at hop

theorem indexed_wellMarked {op : UInt8} {r : IndexRegister} {o : Opcode}
    (h : indexed op r = some o) : isWellMarked (some r) o = true := by
  have hall (r : IndexRegister) :
      ∀ n < 256, (indexed (UInt8.ofNat n) r).all (isWellMarked (some r)) = true := by
    cases r <;> decide +kernel
  have hop := forall_byte (p := fun op => (indexed op r).all (isWellMarked (some r)) = true)
    (hall r) op
  rwa [h] at hop

theorem bitwise_wellMarked (op : UInt8) : isWellMarked none (bitwise op) = true :=
  forall_byte (p := fun op => isWellMarked none (bitwise op) = true) (by decide +kernel) op

theorem extended_wellMarked (op : UInt8) : isWellMarked none (extended op) = true :=
  forall_byte (p := fun op => isWellMarked none (extended op) = true) (by decide +kernel) op

theorem indexedBitwise_wellMarked (op : UInt8) (r : IndexRegister) :
    isWellMarked (some r) (indexedBitwise op r) = true ∧ (indexedBitwise op r).length = 4 := by
  have hall (r : IndexRegister) : ∀ n < 256,
      isWellMarked (some r) (indexedBitwise (UInt8.ofNat n) r) = true ∧
        (indexedBitwise (UInt8.ofNat n) r).length = 4 := by
    cases r <;> decide +kernel
  exact forall_byte (p := fun op => isWellMarked (some r) (indexedBitwise op r) = true ∧
    (indexedBitwise op r).length = 4) (hall r) op

@[simp] theorem indexRegister?_byte (r : IndexRegister) (rest : List UInt8) :
    indexRegister? (r.byte :: rest) = some r := by
  cases r <;> rfl

/-- An opcode of the first table selects no index register, and operands come right behind it. -/
theorem indexRegister?_operandPart_of_unprefixed {op : UInt8} {o : Opcode}
    (h : unprefixed op = some o) (rest : List UInt8) :
    indexRegister? (op :: rest) = none ∧ operandPart (op :: rest) = rest := by
  have hnot := mt (unprefixed_eq_none_iff op).2 (by simp [h])
  simp only [not_or] at hnot
  simp [indexRegister?, operandPart, hnot]

@[simp] theorem operandPart_byte (r : IndexRegister) (rest : List UInt8) :
    operandPart (r.byte :: rest) =
      if rest.head? = some 0xCB then (rest.drop 1).take 1 else rest.drop 1 := by
  cases r <;> rfl

/-- **Every opcode that is found is well marked.** -/
theorem select_wellMarked {o : Opcode} {position : Nat} (h : select bytes = .ok (o, position)) :
    isWellMarked (indexRegister? bytes) o = true := by
  cases selects_of_select h with
  | unprefixed rest hu =>
    rw [(indexRegister?_operandPart_of_unprefixed hu rest).1]
    exact unprefixed_wellMarked hu
  | bitwise op rest => exact bitwise_wellMarked op
  | extended op rest => exact extended_wellMarked op
  | indexed rest hop hi =>
    rw [indexRegister?_byte]
    exact indexed_wellMarked hi
  | ignored r rest =>
    rw [indexRegister?_byte]
    cases r <;> decide +kernel
  | indexedBitwise r displacement op rest =>
    rw [indexRegister?_byte]
    exact (indexedBitwise_wellMarked op r).1

/-- **The holes are filled from the operand bytes of the instruction.** -/
theorem select_operandPart {o : Opcode} {position : Nat} (h : select bytes = .ok (o, position)) :
    operandPart (bytes.take o.length) = (bytes.drop position).take (holeBytes o.form.pieces) := by
  have hlength (o : Opcode) : o.length = holeBytes o.form.pieces + o.selectors := Nat.add_comm _ _
  cases selects_of_select h with
  | unprefixed rest hu =>
    rw [hlength, unprefixed_selectors hu, List.take_succ_cons,
      (indexRegister?_operandPart_of_unprefixed hu _).2]
    rfl
  | bitwise op rest =>
    rw [hlength]
    rfl
  | extended op rest =>
    rw [hlength]
    rfl
  | indexed rest hop hi =>
    rw [hlength, indexed_selectors hi, List.take_succ_cons, List.take_succ_cons, operandPart_byte,
      if_neg (by simpa using hop)]
    rfl
  | ignored r rest => cases r <;> rfl
  | indexedBitwise r displacement op rest =>
    have hfour := (indexedBitwise_wellMarked op r).2
    have hone : holeBytes (indexedBitwise op r).form.pieces = 1 := by
      have hthree : (indexedBitwise op r).selectors = 3 := by simp [indexedBitwise]
      have := hlength (indexedBitwise op r)
      omega
    rw [hfour, hone, List.take_succ_cons, List.take_succ_cons, operandPart_byte,
      if_pos List.head?_cons]
    rfl

/-! ### Templates of legible forms -/

theorem segments_append_literal {cs : List Char} (h : ∀ c ∈ cs, c.isLower = false)
    (rest : List Char) : segments (cs ++ rest) = cs.map .char ++ segments rest := by
  induction cs with
  | nil => rfl
  | cons c cs ih =>
    rw [List.forall_mem_cons] at h
    rw [List.cons_append, segments, h.1, if_neg (by simp), ih h.2]
    rfl

/-- In front of what ends it, a run of lower-case letters is read as one. -/
theorem segments_append_run {letters rest : List Char} (hne : letters ≠ [])
    (hlower : ∀ c ∈ letters, c.isLower = true) (hend : ∀ c ∈ rest.head?, c.isLower = false) :
    segments (letters ++ rest) = .run letters :: segments rest := by
  have hrest : ∀ ls tail, segments rest ≠ .run ls :: tail := by
    intro ls tail
    cases rest with
    | nil => simp [segments]
    | cons c cs =>
      have hc := hend c rfl
      simp [segments, hc]
  induction letters with
  | nil => exact absurd rfl hne
  | cons c cs ih =>
    rw [List.forall_mem_cons] at hlower
    rw [List.cons_append, segments, if_pos hlower.1]
    cases cs with
    | nil =>
      rw [List.nil_append]
      split
      · rename_i hrun
        exact absurd hrun (hrest _ _)
      · rfl
    | cons d ds => rw [ih (by simp) hlower.2]

/-- The run that a hole leaves in a template. -/
def Hole.run : Hole → List Char
  | .displacement _ => ['d']
  | .target => ['j']
  | .address => ['a', 'a']
  | .word => ['n', 'n']
  | .byte => ['n']

/-- What stands in front of the run of a hole and goes with it. -/
def Hole.sign : Hole → List Char
  | .displacement _ => ['+']
  | _ => []

theorem Hole.toList_letters (h : Hole) : h.letters.toList = h.sign ++ h.run := by
  cases h <;> simp [Hole.letters, Hole.sign, Hole.run]

/-- The characters of the template of some parts. -/
def templateOf (ps : List Piece) : List Char := ps.flatMap (·.template.toList)

theorem toList_template (f : Form) : f.template.toList = templateOf f.pieces := by
  rw [Form.template, String.toList_join, templateOf, List.flatMap_map]

theorem templateOf_cons (p : Piece) (ps : List Piece) :
    templateOf (p :: ps) = p.template.toList ++ templateOf ps := List.flatMap_cons

section Legible

variable {register : Option IndexRegister} {ps : List Piece} {h : Hole} {s : String}

theorem isLegible_text (hlegible : isLegible register (.text s :: ps) = true) :
    (∀ c ∈ s.toList, isLiteral c = true) ∧ isLegible register ps = true := by
  rw [isLegible, Bool.and_eq_true] at hlegible
  exact ⟨fun c hc => isLiteral_of_mem hlegible.1 hc, hlegible.2⟩

theorem isLegible_hole (hlegible : isLegible register (.hole h :: ps) = true) :
    h.isFrom register = true ∧ endsRun ps = true ∧ isLegible register ps = true := by
  rw [isLegible, Bool.and_eq_true, Bool.and_eq_true] at hlegible
  exact ⟨hlegible.1.1, hlegible.1.2, hlegible.2⟩

theorem isLower_of_isLiteral {c : Char} (hc : isLiteral c = true) : c.isLower = false := by
  rw [isLiteral, Bool.and_eq_true] at hc
  simpa using hc.1

theorem ne_plus_of_isLiteral {c : Char} (hc : isLiteral c = true) : c ≠ '+' := by
  rw [isLiteral, Bool.and_eq_true] at hc
  simpa using hc.2

theorem isLower_head_templateOf (hend : endsRun ps = true)
    (hlegible : isLegible register ps = true) : ∀ c ∈ (templateOf ps).head?, c.isLower = false := by
  match ps with
  | [] => simp [templateOf]
  | .text s :: ps =>
    have hne : s.toList ≠ [] := by simpa [endsRun] using hend
    obtain ⟨c, cs, hcs⟩ := List.exists_cons_of_ne_nil hne
    have hc := (isLegible_text hlegible).1 c (by simp [hcs])
    rw [templateOf_cons, Piece.template, hcs]
    simpa using isLower_of_isLiteral hc

/-- The template of a text and what follows. -/
theorem segments_text (hlegible : isLegible register (.text s :: ps) = true) :
    segments (templateOf (.text s :: ps)) = s.toList.map .char ++ segments (templateOf ps) := by
  rw [templateOf_cons]
  exact segments_append_literal
    (fun c hc => isLower_of_isLiteral ((isLegible_text hlegible).1 c hc)) _

/-- The template of a hole and what follows. -/
theorem segments_hole (hlegible : isLegible register (.hole h :: ps) = true) :
    segments (templateOf (.hole h :: ps)) =
      h.sign.map .char ++ .run h.run :: segments (templateOf ps) := by
  obtain ⟨-, hend, hps⟩ := isLegible_hole hlegible
  have hsign : ∀ c ∈ h.sign, c.isLower = false := by cases h <;> simp [Hole.sign]
  have hrun : ∀ c ∈ h.run, c.isLower = true := by cases h <;> simp [Hole.run]
  have hne : h.run ≠ [] := by cases h <;> simp [Hole.run]
  rw [templateOf_cons, Piece.template, Hole.toList_letters, List.append_assoc,
    segments_append_literal hsign,
    segments_append_run hne hrun (isLower_head_templateOf hend hps)]

/-! ### Operands -/

theorem readRuns_chars (length : Nat) (cs : List Char) (rest : List Segment) :
    readRuns register address length (cs.map .char ++ rest) bytes =
      readRuns register address length rest bytes := by
  induction cs with
  | nil => rfl
  | cons c cs ih => exact ih

theorem ofInt_natCast (n : Nat) : UInt16.ofInt n = UInt16.ofNat n := by
  rw [← UInt16.toNat_inj]
  simp [UInt16.ofInt]
  omega

theorem jumpTarget_eq (address : UInt16) (length : Nat) (distance : UInt8) :
    jumpTarget address length distance =
      UInt16.ofInt (address.toNat + length + distance.toInt8.toInt) := by
  rw [UInt16.ofInt_add, UInt16.ofInt_add, ofInt_natCast, ofInt_natCast, UInt16.ofNat_toNat]
  rfl

theorem littleEndian_eq (low high : UInt8) :
    littleEndian low high = UInt16.ofNat (low.toNat + 0x100 * high.toNat) := by
  have hlow := low.toNat_lt
  have hhigh := high.toNat_lt
  have hshift : high.toUInt16.toNat <<< ((8 : UInt16).toNat % 16) % 2 ^ 16 = 2 ^ 8 * high.toNat := by
    simp [Nat.shiftLeft_eq]
    omega
  rw [← UInt16.toNat_inj, littleEndian, UInt16.toNat_or, UInt16.toNat_shiftLeft, hshift,
    UInt8.toNat_toUInt16, Nat.or_comm, ← Nat.two_pow_add_eq_or_of_lt hlow]
  simp
  omega

/-- A run is read as what fills the hole. -/
theorem readRun_run (length : Nat) (hfrom : h.isFrom register = true)
    (hsize : h.size ≤ bytes.length) :
    readRun register address length h.run bytes =
      some (h.operand address length bytes, bytes.drop h.size) := by
  match h, bytes with
  | .displacement r, b :: rest =>
    obtain rfl : register = some r := by simpa [Hole.isFrom] using hfrom
    rfl
  | .target, b :: rest =>
    rw [Hole.operand, jumpTarget_eq]
    rfl
  | .byte, b :: rest => rfl
  | .address, low :: high :: rest | .word, low :: high :: rest =>
    rw [Hole.operand, littleEndian_eq]
    rfl
  | .displacement _, [] | .target, [] | .byte, [] => simp [Hole.size] at hsize
  | .address, [] | .word, [] | .address, [_] | .word, [_] => simp [Hole.size] at hsize

/-- **The runs are read as the operands that fill the holes.** -/
theorem readRuns_templateOf (length : Nat) (hlegible : isLegible register ps = true)
    (hbytes : bytes.length = holeBytes ps) :
    readRuns register address length (segments (templateOf ps)) bytes =
      some (fillOperands address length ps bytes) := by
  induction ps generalizing bytes with
  | nil =>
    obtain rfl := List.eq_nil_of_length_eq_zero hbytes
    rfl
  | cons p ps ih =>
    cases p with
    | text s =>
      rw [segments_text hlegible, readRuns_chars]
      exact ih (isLegible_text hlegible).2 (by simpa [holeBytes, Piece.size] using hbytes)
    | hole h =>
      have hsize : bytes.length = h.size + holeBytes ps := hbytes
      obtain ⟨hfrom, -, hps⟩ := isLegible_hole hlegible
      have hdrop : (bytes.drop h.size).length = holeBytes ps := by
        rw [List.length_drop]
        omega
      rw [segments_hole hlegible, readRuns_chars, readRuns, readRun_run length hfrom (by omega),
        Option.bind_some]
      simp only [ih hps hdrop]
      rfl

/-! ### The text -/

theorem substitute_chars {cs : List Char} (hcs : '+' ∉ cs) (rest : List Segment)
    (operands : List Operand) :
    substitute base (cs.map .char ++ rest) operands = cs ++ substitute base rest operands := by
  induction cs with
  | nil => rfl
  | cons c cs ih =>
    rw [List.mem_cons, not_or] at hcs
    rw [List.map_cons, List.cons_append, substitute, if_neg fun h => hcs.1 h.1.symm, ih hcs.2]
    rfl

theorem substitute_hole (operand : Operand) (operands : List Operand) (rest : List Segment) :
    substitute base (h.sign.map .char ++ .run h.run :: rest) (operand :: operands) =
      (operand.render base).toList ++ substitute base rest operands := by
  cases h <;> simp [Hole.sign, Hole.run, substitute]

/-- **The text is the template with the operands in place of the runs.** -/
theorem substitute_templateOf (length : Nat) (hlegible : isLegible register ps = true) :
    substitute base (segments (templateOf ps)) (fillOperands address length ps bytes) =
      (fillText address length base ps bytes).toList := by
  induction ps generalizing bytes with
  | nil => rfl
  | cons p ps ih =>
    cases p with
    | text s =>
      obtain ⟨hs, hps⟩ := isLegible_text hlegible
      have hplus : '+' ∉ s.toList := fun hc => ne_plus_of_isLiteral (hs _ hc) rfl
      rw [segments_text hlegible, substitute_chars hplus, fillOperands, ih hps, fillText,
        String.toList_append]
    | hole h =>
      obtain ⟨-, -, hps⟩ := isLegible_hole hlegible
      rw [segments_hole hlegible, fillOperands, substitute_hole, ih hps, fillText,
        String.toList_append]

theorem holdsNoLower_render (operand : Operand) (base : Base) :
    Numeral.HoldsNoLower (operand.render base).toList := by
  cases operand with
  | displacement r d => exact Numeral.holdsNoLower_displacement d base
  | relative a | address a | number a | immediate a => exact Numeral.holdsNoLower_operand _ _ _ _

/-- **No lower-case letter is left.** -/
theorem holdsNoLower_fillText (length : Nat) (hlegible : isLegible register ps = true) :
    Numeral.HoldsNoLower (fillText address length base ps bytes).toList := by
  induction ps generalizing bytes with
  | nil => exact fun c hc => absurd hc List.not_mem_nil
  | cons p ps ih =>
    cases p with
    | text s =>
      obtain ⟨hs, hps⟩ := isLegible_text hlegible
      exact .appendString (fun c hc => isLower_of_isLiteral (hs c hc)) (ih hps)
    | hole h => exact .appendString (holdsNoLower_render _ _) (ih (isLegible_hole hlegible).2.2)

end Legible

/-! ### Replacing one run after the other -/

/-- The characters with the first place where the letters stand replaced by others. -/
def replaceFirst (letters value : List Char) : List Char → List Char
  | [] => []
  | c :: cs =>
    if letters.isPrefixOf (c :: cs) then value ++ (c :: cs).drop letters.length
    else c :: replaceFirst letters value cs

/-- The letters that an operand replaces. -/
def Operand.letters : Operand → String
  | .displacement _ _ => "+d"
  | .relative _ => "j"
  | .address _ => "aa"
  | .number _ => "nn"
  | .immediate _ => "n"

/-- The text with the first place where the letters stand replaced by the last operand that they
stand for, if there is one. -/
def replaceBy (base : Base) (operands : List Operand) (text : List Char) (letters : String) :
    List Char :=
  match operands.reverse.find? (·.letters = letters) with
  | some operand => replaceFirst letters.toList (operand.render base).toList text
  | none => text

/-- The template with its runs replaced one after the other, in a fixed order of their letters. -/
def replaceInTurn (base : Base) (operands : List Operand) (template : List Char) : List Char :=
  ["+d", "j", "aa", "nn", "n"].foldl (replaceBy base operands) template

theorem replaceFirst_append {c : Char} {front : List Char} (hc : c ∉ front)
    (letters value back : List Char) :
    replaceFirst (c :: letters) value (front ++ (c :: letters ++ back)) = front ++ (value ++ back) := by
  induction front with
  | nil =>
    rw [List.nil_append, List.nil_append, List.cons_append, replaceFirst, if_pos (by simp)]
    simp
  | cons d front ih =>
    rw [List.mem_cons, not_or] at hc
    rw [List.cons_append, replaceFirst, if_neg (by simp [List.isPrefixOf, hc.1]), ih hc.2]
    rfl

/-- One operand replaces its letters, if only texts come before them. -/
theorem replaceInTurn_singleton (operand : Operand) {front : List Char}
    (hfront : ∀ c ∈ front, isLiteral c = true) (back : List Char) :
    replaceInTurn base [operand] (front ++ (operand.letters.toList ++ back)) =
      front ++ ((operand.render base).toList ++ back) := by
  have hinTurn (text : List Char) : replaceInTurn base [operand] text =
      replaceFirst operand.letters.toList (operand.render base).toList text := by
    cases operand <;> simp [replaceInTurn, replaceBy, Operand.letters]
  obtain ⟨c, cs, hletters, hc⟩ : ∃ c cs, operand.letters.toList = c :: cs ∧ isLiteral c = false := by
    cases operand with
    | displacement r d => exact ⟨'+', ['d'], by simp [Operand.letters], rfl⟩
    | relative a => exact ⟨'j', [], by simp [Operand.letters], rfl⟩
    | address a => exact ⟨'a', ['a'], by simp [Operand.letters], rfl⟩
    | number n => exact ⟨'n', ['n'], by simp [Operand.letters], rfl⟩
    | immediate n => exact ⟨'n', [], by simp [Operand.letters], rfl⟩
  have hmem : c ∉ front := fun hmem => by simp [hfront c hmem] at hc
  rw [hinTurn, hletters, replaceFirst_append hmem]

/-- A displacement and then a byte replace their letters: the displacement is filled in before
the `n` of the byte is looked for, but no number holds an `n`. -/
theorem replaceInTurn_pair (r : IndexRegister) (d : Int8) (n : UInt8) {front middle : List Char}
    (hfront : ∀ c ∈ front, isLiteral c = true) (hmiddle : ∀ c ∈ middle, isLiteral c = true)
    (back : List Char) :
    replaceInTurn base [.displacement r d, .immediate n]
        (front ++ (['+', 'd'] ++ (middle ++ (['n'] ++ back)))) =
      front ++ (((Operand.displacement r d).render base).toList ++
        (middle ++ (((Operand.immediate n).render base).toList ++ back))) := by
  have hinTurn (text : List Char) :
      replaceInTurn base [.displacement r d, .immediate n] text =
        replaceFirst ['n'] ((Operand.immediate n).render base).toList
          (replaceFirst ['+', 'd'] ((Operand.displacement r d).render base).toList text) := by
    simp [replaceInTurn, replaceBy, Operand.letters]
  have hplus : '+' ∉ front := fun hmem => ne_plus_of_isLiteral (hfront _ hmem) rfl
  have hn : 'n' ∉ front ++ (((Operand.displacement r d).render base).toList ++ middle) := by
    simp only [List.mem_append, not_or]
    refine ⟨fun hmem => ?_, fun hmem => ?_, fun hmem => ?_⟩
    · exact absurd (isLower_of_isLiteral (hfront _ hmem)) (by decide)
    · exact absurd (holdsNoLower_render _ _ _ hmem) (by decide)
    · exact absurd (isLower_of_isLiteral (hmiddle _ hmem)) (by decide)
  have hsecond := replaceFirst_append hn [] ((Operand.immediate n).render base).toList back
  simp only [List.append_assoc] at hsecond
  rw [hinTurn, replaceFirst_append hplus, hsecond]

/-- What a hole is filled with replaces the letters of the hole. -/
theorem Hole.letters_operand (h : Hole) (address : UInt16) (length : Nat) (bytes : List UInt8) :
    (h.operand address length bytes).letters = h.letters := by
  cases h <;> rfl

section InTurn

variable {register : Option IndexRegister} {front ps : List Piece}

/-- The first hole of a form, with texts in front of it. -/
theorem exists_of_holes_eq_cons {h : Hole} {hs : List Hole} (hholes : holes ps = h :: hs) :
    ∃ front back, ps = front ++ .hole h :: back ∧ holes front = [] ∧ holes back = hs := by
  obtain ⟨front, p, back, rfl, hfront, hp, hback⟩ := List.filterMap_eq_cons_iff.1 hholes
  cases p with
  | text s => simp at hp
  | hole h' =>
    obtain rfl := Option.some.inj hp
    exact ⟨front, back, rfl, List.filterMap_eq_nil_iff.2 hfront, hback⟩

theorem templateOf_append (ps qs : List Piece) :
    templateOf (ps ++ qs) = templateOf ps ++ templateOf qs := List.flatMap_append

/-- Texts stand in the text of an instruction as they do in its template, and take no operand. -/
theorem fill_of_holes_eq_nil (hfront : holes front = []) (ps : List Piece) (address : UInt16)
    (length : Nat) (base : Base) (bytes : List UInt8) :
    fillOperands address length (front ++ ps) bytes = fillOperands address length ps bytes ∧
      (fillText address length base (front ++ ps) bytes).toList =
        templateOf front ++ (fillText address length base ps bytes).toList := by
  induction front with
  | nil => exact ⟨rfl, rfl⟩
  | cons p front ih =>
    cases p with
    | text s =>
      obtain ⟨hoperands, htext⟩ := ih (by simpa [holes] using hfront)
      refine ⟨hoperands, ?_⟩
      rw [List.cons_append, fillText, String.toList_append, htext, templateOf_cons, Piece.template,
        List.append_assoc]
    | hole h => simp [holes] at hfront

theorem isLegible_of_append (hlegible : isLegible register (front ++ ps) = true)
    (hfront : holes front = []) :
    (∀ c ∈ templateOf front, isLiteral c = true) ∧ isLegible register ps = true := by
  induction front with
  | nil => exact ⟨fun c hc => absurd hc List.not_mem_nil, hlegible⟩
  | cons p front ih =>
    cases p with
    | text s =>
      obtain ⟨hs, hrest⟩ := isLegible_text hlegible
      obtain ⟨hliteral, hps⟩ := ih hrest (by simpa [holes] using hfront)
      refine ⟨fun c hc => ?_, hps⟩
      rcases List.mem_append.1 hc with hc | hc
      · exact hs c hc
      · exact hliteral c hc
    | hole h => simp [holes] at hfront

/-- A form up to its first hole, in its template and filled in. -/
theorem exists_fill_of_holes_eq_cons {h : Hole} {hs : List Hole} (hholes : holes ps = h :: hs)
    (hlegible : isLegible register ps = true) (address : UInt16) (length : Nat) (base : Base)
    (bytes : List UInt8) :
    ∃ front back, templateOf ps = front ++ (h.letters.toList ++ templateOf back) ∧
      fillOperands address length ps bytes = h.operand address length bytes ::
        fillOperands address length back (bytes.drop h.size) ∧
      (fillText address length base ps bytes).toList =
        front ++ (((h.operand address length bytes).render base).toList ++
          (fillText address length base back (bytes.drop h.size)).toList) ∧
      (∀ c ∈ front, isLiteral c = true) ∧ isLegible register back = true ∧ holes back = hs := by
  obtain ⟨front, back, rfl, hfront, hback⟩ := exists_of_holes_eq_cons hholes
  obtain ⟨hliteral, hrest⟩ := isLegible_of_append hlegible hfront
  obtain ⟨hoperands, htext⟩ := fill_of_holes_eq_nil hfront (.hole h :: back) address length base bytes
  refine ⟨templateOf front, back, ?_, hoperands, ?_, hliteral, (isLegible_hole hrest).2.2, hback⟩
  · rw [templateOf_append, templateOf_cons, Piece.template]
  · rw [htext, fillText, String.toList_append]

/-- **Replacing the runs one after the other is filling the holes.** -/
theorem replaceInTurn_templateOf (length : Nat) (hlegible : isLegible register ps = true)
    (hturn : areInTurn (holes ps) = true) :
    replaceInTurn base (fillOperands address length ps bytes) (templateOf ps) =
      (fillText address length base ps bytes).toList := by
  -- without a hole nothing is filled in
  have hplain (ps : List Piece) (bytes : List UInt8) (hholes : holes ps = []) :
      fillOperands address length ps bytes = [] ∧
        (fillText address length base ps bytes).toList = templateOf ps := by
    have hfill := fill_of_holes_eq_nil hholes [] address length base bytes
    simpa [fillOperands, fillText] using hfill
  rcases areInTurn_cases hturn with hholes | ⟨h, hholes⟩ | ⟨r, hholes⟩
  · obtain ⟨hoperands, htext⟩ := hplain ps bytes hholes
    rw [hoperands, htext]
    rfl
  · obtain ⟨front, back, htemplate, hoperands, htext, hliteral, -, hback⟩ :=
      exists_fill_of_holes_eq_cons hholes hlegible address length base bytes
    obtain ⟨hnone, hrest⟩ := hplain back (bytes.drop h.size) hback
    rw [hoperands, htext, htemplate, hnone, hrest, ← Hole.letters_operand h address length bytes]
    exact replaceInTurn_singleton _ hliteral _
  · obtain ⟨front, rest, htemplate, hoperands, htext, hliteral, hlegible', hholes'⟩ :=
      exists_fill_of_holes_eq_cons hholes hlegible address length base bytes
    obtain ⟨middle, back, htemplate', hoperands', htext', hliteral', -, hback⟩ :=
      exists_fill_of_holes_eq_cons hholes' hlegible' address length base (bytes.drop 1)
    obtain ⟨hnone, hrest⟩ := hplain back ((bytes.drop 1).drop 1) hback
    rw [hoperands, htext, htemplate]
    simp only [Hole.size]
    rw [hoperands', htext', htemplate', Hole.size, hnone, hrest, Hole.toList_letters,
      Hole.toList_letters]
    exact replaceInTurn_pair _ _ _ hliteral hliteral' _

end InTurn

/-- **Decoding fills in the template.** An instruction has one to four bytes, all of which are there.
Its operands are those that the runs of lower-case letters of its template stand for, from left to
right, in the bytes behind the ones that select the opcode, and they use these bytes up. Its text is
the template with the operands in place of the runs, and holds no lower-case letter. -/
theorem decode_substitutes (h : decode bytes address base = .ok i) :
    (1 ≤ i.length ∧ i.length ≤ 4 ∧ i.length ≤ bytes.length) ∧
      readRuns (indexRegister? bytes) address i.length (segments i.opcode.form.template.toList)
        (operandPart (bytes.take i.length)) = some i.operands ∧
      i.text.toList = substitute base (segments i.opcode.form.template.toList) i.operands ∧
      ∀ c ∈ i.text.toList, c.isLower = false := by
  have hlength := decode_length h
  obtain ⟨o, position, hselect, hfits, rfl⟩ := decode_eq_ok h
  have hmarked := select_wellMarked hselect
  rw [isWellMarked, Bool.and_eq_true] at hmarked
  have hlegible := hmarked.1
  have hposition := select_position hselect
  have hsum : o.length = o.selectors + holeBytes o.form.pieces := rfl
  have henough : holeBytes o.form.pieces ≤ (bytes.drop position).length := by
    rw [List.length_drop]
    omega
  have hpart : ((bytes.drop position).take (holeBytes o.form.pieces)).length =
      holeBytes o.form.pieces := by
    rw [List.length_take]
    omega
  refine ⟨⟨hlength.1, select_length_le hselect, hlength.2⟩, ?_, ?_, ?_⟩
  · have hfill := fillOperands_append address o.length
      ((bytes.drop position).drop (holeBytes o.form.pieces)) o.form.pieces
      ((bytes.drop position).take (holeBytes o.form.pieces)) (Nat.le_of_eq hpart.symm)
    rw [List.take_append_drop] at hfill
    change readRuns _ _ o.length _ (operandPart (bytes.take o.length)) = _
    rw [toList_template, select_operandPart hselect, hfill]
    exact readRuns_templateOf _ hlegible hpart
  · rw [toList_template]
    exact (substitute_templateOf _ hlegible).symm
  · exact holdsNoLower_fillText _ hlegible

/-- The displacement -2 from `IX` and the byte 2A, in hexadecimal. -/
theorem decode_substitutes_sample :
    ∃ i, decode [0xDD, 0x36, 0xFE, 0x2A] 0x8000 .hex = .ok i ∧
      i.opcode.form.template = "LD (IX+d),n" ∧ i.text = "LD (IX-#02),#2A" ∧
      readRuns (some .ix) 0x8000 i.length (segments i.opcode.form.template.toList) [0xFE, 0x2A] =
        some i.operands := by
  refine ⟨_, rfl, by decide +kernel, by decide +kernel, ?_⟩
  exact (@decode_substitutes [0xDD, 0x36, 0xFE, 0x2A] 0x8000 .hex _ rfl).2.1

/-- **The runs can be replaced one after the other.** The text of an instruction is its template with
the first `+d`, then the first `j`, `aa`, `nn` and `n` replaced by the operand that it stands for. -/
theorem replaceInTurn_template (h : decode bytes address base = .ok i) :
    i.text.toList = replaceInTurn base i.operands i.opcode.form.template.toList := by
  obtain ⟨o, position, hselect, -, rfl⟩ := decode_eq_ok h
  have hmarked := select_wellMarked hselect
  rw [isWellMarked, Bool.and_eq_true] at hmarked
  rw [toList_template]
  exact (replaceInTurn_templateOf _ hmarked.1 hmarked.2).symm

end Z80
end Disassembly
