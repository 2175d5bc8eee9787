/-
# Stored directives are read back

A directive is stored in one line, and the line is read back as the same directive (`parse_store`),
whatever its texts hold: line feeds are taken out and put back at their places, and the payload
comes last, so it may hold the separator of fields.
-/

import Disassembly.Directive.Stored
import Disassembly.Proofs.Numeral.ReadBack
import Disassembly.Proofs.Scope.Stored

namespace Disassembly
namespace Directive

open Text

/-- The text of a payload without its line feeds. -/
def flat (cs : List Char) : List Char := cs.filter (· ≠ '\n')

@[simp] theorem flat_newline (cs : List Char) : flat ('\n' :: cs) = flat cs := by
  simp [flat]

theorem flat_cons {c : Char} (hc : c ≠ '\n') (cs : List Char) : flat (c :: cs) = c :: flat cs := by
  simp [flat, hc]

theorem flat_append (cs cs' : List Char) : flat (cs ++ cs') = flat cs ++ flat cs' :=
  List.filter_append ..

/-- A text without line feeds stays as it is. -/
theorem flat_eq_self {cs : List Char} (h : '\n' ∉ cs) : flat cs = cs := by
  refine List.filter_eq_self.2 fun c hc => ?_
  have hne : c ≠ '\n' := by
    rintro rfl
    exact h hc
  simpa using hne

theorem newline_not_mem_flat (cs : List Char) : '\n' ∉ flat cs := by
  simp [flat]

theorem newlineOffsets_newline (position : Nat) (cs : List Char) :
    newlineOffsets position ('\n' :: cs) = position :: newlineOffsets position cs := by
  rw [newlineOffsets, if_pos rfl]

theorem newlineOffsets_cons {c : Char} (hc : c ≠ '\n') (position : Nat) (cs : List Char) :
    newlineOffsets position (c :: cs) = newlineOffsets (position + c.utf8Size) cs := by
  rw [newlineOffsets, if_neg hc]

/-- Line feeds do not come before the text that they are in. -/
theorem le_of_mem_newlineOffsets {n position : Nat} {cs : List Char}
    (h : n ∈ newlineOffsets position cs) : position ≤ n := by
  induction cs generalizing position with
  | nil => exact absurd h List.not_mem_nil
  | cons c cs ih =>
    by_cases hc : c = '\n'
    · subst hc
      rw [newlineOffsets_newline] at h
      rcases List.mem_cons.1 h with rfl | h
      · exact Nat.le_refl _
      · exact ih h
    · rw [newlineOffsets_cons hc] at h
      exact Nat.le_trans (Nat.le_add_right _ _) (ih h)

/-- A character that comes before all line feeds stays in front. -/
theorem insertNewlines_cons {position : Nat} {offsets : List Nat} (c : Char) (cs : List Char)
    (h : ∀ n ∈ offsets, position + c.utf8Size ≤ n) :
    insertNewlines position offsets (c :: cs) =
      c :: insertNewlines (position + c.utf8Size) offsets cs := by
  cases offsets with
  | nil => rfl
  | cons n ns =>
    have hn := h n List.mem_cons_self
    have hpos := c.utf8Size_pos
    rw [insertNewlines, insertNewlines, splitAtByte?, if_neg (by omega), if_pos (by omega),
      Nat.sub_sub]
    cases splitAtByte? (n - (position + c.utf8Size)) cs with
    | none => rfl
    | some parts => rfl

/-- **Line feeds that are put back at their places give the text they were taken from.** -/
theorem insertNewlines_newlineOffsets (position : Nat) (cs : List Char) :
    insertNewlines position (newlineOffsets position cs) (flat cs) = cs := by
  induction cs generalizing position with
  | nil => rfl
  | cons c cs ih =>
    by_cases hc : c = '\n'
    · subst hc
      have hzero : splitAtByte? (position - position) (flat cs) = some ([], flat cs) := by
        rw [Nat.sub_self]
        exact splitAtByte?_append [] (flat cs)
      rw [newlineOffsets_newline, flat_newline, insertNewlines, hzero]
      exact congrArg ('\n' :: ·) (ih position)
    · rw [newlineOffsets_cons hc, flat_cons hc,
        insertNewlines_cons c (flat cs) fun n hn => le_of_mem_newlineOffsets hn, ih]

/-- The offsets of line feeds are read back: each lies in the payload, and they do not go down. The
text before those that are left is `gone`. -/
theorem readOffsets_newlineOffsets {limit : Nat} (hlimit : limit = 0xFFFFFFFFFFFFFFFF)
    (cs gone : List Char) (least : Nat) (hleast : least ≤ byteLength gone)
    (hsize : byteLength gone + byteLength cs ≤ limit) :
    readOffsets (gone ++ flat cs) least
        ((newlineOffsets (byteLength gone) cs).map fun n => (Numeral.decimal n).toList) =
      .ok (newlineOffsets (byteLength gone) cs) := by
  induction cs generalizing gone least with
  | nil => rfl
  | cons c cs ih =>
    rw [byteLength] at hsize
    by_cases hc : c = '\n'
    · subst hc
      have htrim : trim (Numeral.decimal (byteLength gone)).toList =
          (Numeral.decimal (byteLength gone)).toList :=
        trim_of_isAlphanum fun c => Numeral.isAlphanum_of_mem_decimal
      rw [newlineOffsets_newline, flat_newline, List.map_cons, readOffsets, htrim, ← hlimit,
        Numeral.readCount?_decimal (by omega)]
      simp only [splitAtByte?_append, Option.isNone_some, Nat.not_lt.2 hleast, if_false]
      rw [ih gone (byteLength gone) (Nat.le_refl _) (by omega)]
      rfl
    · have hgone : byteLength (gone ++ [c]) = byteLength gone + c.utf8Size := by
        rw [byteLength_append]
        rfl
      have hrest := ih (gone ++ [c]) least (by omega) (by omega)
      rw [hgone, List.append_assoc, List.singleton_append] at hrest
      rw [newlineOffsets_cons hc, flat_cons hc]
      exact hrest

/-- The field that lists the line feeds of a text. -/
def newlineField (cs : List Char) : List Char :=
  (String.intercalate "," ((newlineOffsets 0 cs).map Numeral.decimal)).toList

theorem newlineField_eq (cs : List Char) : newlineField cs =
    [','].intercalate ((newlineOffsets 0 cs).map fun n => (Numeral.decimal n).toList) := by
  rw [newlineField, String.toList_intercalate, List.map_map]
  rfl

/-- The numbers in the field are letters and digits, with commas between them. -/
theorem mem_newlineField {c : Char} {cs : List Char} (h : c ∈ newlineField cs) :
    c = ',' ∨ c.isAlphanum = true := by
  rw [newlineField_eq] at h
  generalize newlineOffsets 0 cs = offsets at h
  induction offsets with
  | nil => exact absurd h List.not_mem_nil
  | cons n ns ih =>
    cases ns with
    | nil =>
      rw [List.map_singleton, List.intercalate_singleton] at h
      exact .inr (Numeral.isAlphanum_of_mem_decimal h)
    | cons k ks =>
      rw [List.map_cons, List.map_cons, List.intercalate_cons_cons, List.append_assoc,
        List.mem_append, List.mem_append, List.mem_singleton] at h
      rcases h with h | h | h
      · exact .inr (Numeral.isAlphanum_of_mem_decimal h)
      · exact .inl h
      · exact ih h

/-- **A payload is read back with its line feeds.** -/
theorem readPayload_newlineField {cs : List Char} (hsize : byteLength cs ≤ 0xFFFFFFFFFFFFFFFF) :
    readPayload (newlineField cs) (flat cs) = .ok cs := by
  have hinsert := insertNewlines_newlineOffsets 0 cs
  rw [readPayload, newlineField_eq]
  by_cases hns : newlineOffsets 0 cs = []
  · rw [hns] at hinsert ⊢
    exact congrArg Except.ok hinsert
  · have hoffsets : readOffsets (flat cs) 0
        ((newlineOffsets 0 cs).map fun n => (Numeral.decimal n).toList) =
          .ok (newlineOffsets 0 cs) :=
      readOffsets_newlineOffsets rfl cs [] 0 (Nat.le_refl _) (by rwa [byteLength, Nat.zero_add])
    have hitems : splitOn ','
        ([','].intercalate ((newlineOffsets 0 cs).map fun n => (Numeral.decimal n).toList)) =
          (newlineOffsets 0 cs).map fun n => (Numeral.decimal n).toList := by
      refine splitOn_intercalate (by simpa using hns) fun piece hpiece hcomma => ?_
      obtain ⟨n, -, rfl⟩ := List.mem_map.1 hpiece
      exact absurd (Numeral.isAlphanum_of_mem_decimal hcomma) (by decide)
    rw [if_neg, hitems, hoffsets]
    · exact congrArg Except.ok hinsert
    · intro hnil
      rw [hnil] at hitems
      obtain ⟨n, ns, hcons⟩ := List.exists_cons_of_ne_nil hns
      rw [hcons, List.map_cons] at hitems
      have hdecimal : [] = (Numeral.decimal n).toList := (List.cons.inj hitems).1
      rw [Numeral.toList_decimal] at hdecimal
      exact Nat.toDigits_ne_nil hdecimal.symm

/-- A field of four digits is read back. -/
theorem readField_fixed (field : Field) {n : Nat} (hn : n < 0x10000) :
    readField field (Numeral.fixedDigits 16 4 n) = .ok n := by
  have hlen : byteLength (Numeral.fixedDigits 16 4 n) = 4 := by
    rw [byteLength_of_isAlphanum fun c => Numeral.isAlphanum_of_mem_fixedDigits,
      Numeral.length_fixedDigits]
  rw [readField, hlen, Numeral.readHex?_fixedDigits (by decide) (by decide) hn]
  rfl

/-- A number in front of a payload is read back. -/
theorem readLeading_fixed (count : Nat) {n : Nat} (hpos : 0 < count) (hmost : count ≤ 8)
    (hn : n < 16 ^ count) (rest : List Char) :
    readLeading count (Numeral.fixedDigits 16 count n ++ rest) = .ok (n, rest) := by
  have hlen : byteLength (Numeral.fixedDigits 16 count n) = count := by
    rw [byteLength_of_isAlphanum fun c => Numeral.isAlphanum_of_mem_fixedDigits,
      Numeral.length_fixedDigits]
  have hsplit := splitAtByte?_append (Numeral.fixedDigits 16 count n) rest
  rw [hlen] at hsplit
  rw [readLeading, hsplit]
  simp only [Numeral.readHex?_fixedDigits hpos hmost hn]

/-- A format change with a simple value is read back. -/
theorem readFormat_of_byte {change : Scope.Change} {value : UInt8} (h : change.byte? = some value) :
    readFormat change.option.toNat (Numeral.fixedDigits 16 2 value.toNat) = .ok change := by
  have hoption : change.option.toNat ≠ 0x09 ∧ change.option.toNat ≠ 0xFF := by
    cases change <;> simp [Scope.Change.byte?, Scope.Change.option] at h ⊢
  have hleading := readLeading_fixed 2 (by decide) (by decide) value.toNat_lt []
  rw [List.append_nil] at hleading
  rw [readFormat, if_neg hoption.1, if_neg hoption.2, hleading]
  simp only [bind, Except.bind, UInt8.ofNat_toNat, Scope.Change.ofOption?_byte? h]
  rfl

/-- The payload of a format change with a simple value is its byte. -/
theorem payload_of_byte (first last : UInt16) {change : Scope.Change} {value : UInt8}
    (h : change.byte? = some value) :
    (payload ⟨first, last, .format change⟩).toList = Numeral.fixedDigits 16 2 value.toNat := by
  have hpayload : payload ⟨first, last, .format change⟩ = Numeral.fixed .hex 2 value.toNat := by
    have hvalue : (change.byte?.getD 0).toNat = value.toNat := by rw [h]; rfl
    rw [← hvalue]
    cases change with
    | separator text | custom scope => exact absurd h (by simp [Scope.Change.byte?])
    | _ => rfl
  rw [hpayload, Numeral.fixed, String.toList_ofList]
  rfl

/-- **A format change is read back.** -/
theorem readFormat_payload (first last : UInt16) (change : Scope.Change) :
    readFormat change.option.toNat (payload ⟨first, last, .format change⟩).toList = .ok change := by
  cases hbyte : change.byte? with
  | some value => rw [payload_of_byte first last hbyte, readFormat_of_byte hbyte]
  | none =>
    cases change with
    | separator text =>
      change readFormat 0x09 text.toList = _
      rw [readFormat, if_pos rfl, String.ofList_toList]
    | custom scope =>
      change readFormat 0xFF (Numeral.fixed .hex 8 scope.pack ++ scope.separator).toList = _
      rw [readFormat, if_neg (by decide), if_pos rfl, String.toList_append, Numeral.fixed,
        String.toList_ofList, Base.radix,
        readLeading_fixed 8 (by decide) (by decide) scope.pack_lt scope.separator.toList]
      simp only [Except.map, String.ofList_toList, Scope.unpack_pack]
    | opcodeBytes base => cases base <;> exact absurd hbyte (by simp [Scope.Change.byte?])
    | _ => exact absurd hbyte (by simp [Scope.Change.byte?])

theorem position_code_lt (position : Position) : position.code < 16 := by
  cases position <;> decide

theorem referenceMode_lt (matching : ReferenceMatch) : referenceMode matching < 16 := by
  cases matching <;> decide

theorem displacementMode_lt (matching : DisplacementMatch) : displacementMode matching < 16 := by
  cases matching <;> decide

/-- The code of a comment gives its mode digit and its position. -/
theorem readAnnotation_comment {mode : Nat} (hmode : mode < 16) (position : Position)
    (cs : List Char) :
    readAnnotation (0x0400 + 16 * mode + position.code) cs = readComment mode position cs := by
  have hlt := position_code_lt position
  have hposition : Position.ofCode? position.code = some position := by cases position <;> rfl
  have hkind : (0x0400 + 16 * mode + position.code) / 0x100 = 4 := by omega
  have hlow : (0x0400 + 16 * mode + position.code) % 0x100 % 16 = position.code := by omega
  have hhigh : (0x0400 + 16 * mode + position.code) % 0x100 / 16 = mode := by omega
  simp only [hkind, hlow, hhigh, hposition, readAnnotation]

/-- **An annotation is read back from its code and its payload.** -/
theorem readAnnotation_payload (d : Directive) :
    readAnnotation d.code d.payload.toList = .ok d.annotation := by
  obtain ⟨first, last, annotation⟩ := d
  cases annotation with
  | format change =>
    have hlt := change.option.toNat_lt
    have hkind : (0x0100 + change.option.toNat) / 0x100 = 1 := by omega
    have hlow : (0x0100 + change.option.toNat) % 0x100 = change.option.toNat := by omega
    simp only [code, readAnnotation, hkind, hlow, readFormat_payload]
    rfl
  | dataBlock program =>
    simp [code, payload, readAnnotation]
  | patternBlock program =>
    simp [code, payload, readAnnotation]
  | comment position text =>
    have hcode : code ⟨first, last, .comment position text⟩ = 0x0400 + 16 * 0 + position.code := rfl
    rw [hcode, readAnnotation_comment (by decide)]
    simp [readComment, payload]
  | reference position matching value text =>
    have hread : readComment (referenceMode matching) position
        (Numeral.fixedDigits 16 4 value.toNat ++ text.toList) =
          .ok (.reference position matching value text) := by
      have hleading := readLeading_fixed 4 (by decide) (by decide) value.toNat_lt text.toList
      cases matching <;> simp [readComment, referenceMode, hleading, Except.map]
    simp only [code, payload, readAnnotation_comment (referenceMode_lt matching), Numeral.fixed,
      String.toList_append, String.toList_ofList]
    exact hread
  | displacement position matching displacement text =>
    have hread : readComment (displacementMode matching) position
        (Numeral.fixedDigits 16 2 displacement.toUInt8.toNat ++ text.toList) =
          .ok (.displacement position matching displacement text) := by
      have hleading := readLeading_fixed 2 (by decide) (by decide) displacement.toUInt8.toNat_lt
        text.toList
      cases matching <;> simp [readComment, displacementMode, hleading, Except.map]
    simp only [code, payload, readAnnotation_comment (displacementMode_lt matching), Numeral.fixed,
      String.toList_append, String.toList_ofList]
    exact hread

/-- The code of a directive fits in four digits. -/
theorem code_lt (d : Directive) : d.code < 0x10000 := by
  obtain ⟨first, last, annotation⟩ := d
  cases annotation with
  | format change =>
    have hoption := change.option.toNat_lt
    simp only [code]
    omega
  | dataBlock program | patternBlock program =>
    simp only [code]
    decide
  | comment position text =>
    have hposition := position_code_lt position
    simp only [code]
    omega
  | reference position matching value text =>
    have hposition := position_code_lt position
    have hmode := referenceMode_lt matching
    simp only [code]
    omega
  | displacement position matching displacement text =>
    have hposition := position_code_lt position
    have hmode := displacementMode_lt matching
    simp only [code]
    omega

/-- The five fields of a stored directive. -/
theorem toList_store (d : Directive) : d.store.toList =
    Numeral.fixedDigits 16 4 d.code ++ '#' :: (Numeral.fixedDigits 16 4 d.first.toNat ++
      '#' :: (Numeral.fixedDigits 16 4 d.last.toNat ++
        '#' :: (newlineField d.payload.toList ++ '#' :: flat d.payload.toList))) := by
  simp only [store, Numeral.hexWord, Numeral.fixed, String.toList_append, String.toList_ofList,
    List.append_assoc]
  rfl

/-- The fields before the payload hold letters, digits and commas. -/
theorem not_mem_fixedDigits {c : Char} (hc : c.isAlphanum = false) (count n : Nat) :
    c ∉ Numeral.fixedDigits 16 count n :=
  fun hmem => absurd (Numeral.isAlphanum_of_mem_fixedDigits hmem) (by simp [hc])

theorem not_mem_newlineField {c : Char} (hcomma : c ≠ ',') (hc : c.isAlphanum = false)
    (cs : List Char) : c ∉ newlineField cs := by
  intro hmem
  rcases mem_newlineField hmem with h | h
  · exact hcomma h
  · exact absurd h (by simp [hc])

/-- The fields of a stored directive before its payload. -/
def storedFront (d : Directive) : List Char :=
  Numeral.fixedDigits 16 4 d.code ++ '#' :: (Numeral.fixedDigits 16 4 d.first.toNat ++
    '#' :: (Numeral.fixedDigits 16 4 d.last.toNat ++ '#' :: newlineField d.payload.toList))

theorem toList_store_eq (d : Directive) :
    d.store.toList = storedFront d ++ '#' :: flat d.payload.toList := by
  rw [toList_store, storedFront]
  simp only [List.append_assoc, List.cons_append]

/-- The fields of a directive are told apart, whatever stands behind them. -/
theorem splitOnUpTo_storedFront (d : Directive) (cs : List Char) :
    splitOnUpTo '#' 4 (storedFront d ++ '#' :: cs) =
      [Numeral.fixedDigits 16 4 d.code, Numeral.fixedDigits 16 4 d.first.toNat,
        Numeral.fixedDigits 16 4 d.last.toNat, newlineField d.payload.toList, cs] := by
  have hdigits := not_mem_fixedDigits (c := '#') (by decide) 4
  simp only [storedFront, List.append_assoc, List.cons_append]
  rw [splitOnUpTo_append 3 (hdigits _), splitOnUpTo_append 2 (hdigits _),
    splitOnUpTo_append 1 (hdigits _),
    splitOnUpTo_append 0 (not_mem_newlineField (by decide) (by decide) _), splitOnUpTo_zero]

/-- The fields of a stored directive are told apart, whatever the payload holds. -/
theorem splitOnUpTo_store (d : Directive) : splitOnUpTo '#' 4 d.store.toList =
    [Numeral.fixedDigits 16 4 d.code, Numeral.fixedDigits 16 4 d.first.toNat,
      Numeral.fixedDigits 16 4 d.last.toNat, newlineField d.payload.toList,
      flat d.payload.toList] := by
  rw [toList_store_eq, splitOnUpTo_storedFront]

/-- A stored directive is one line. -/
theorem newline_not_mem_store (d : Directive) : '\n' ∉ d.store.toList := by
  have hdigits := not_mem_fixedDigits (c := '\n') (by decide) 4
  have hfield := not_mem_newlineField (c := '\n') (by decide) (by decide) d.payload.toList
  have hpayload := newline_not_mem_flat d.payload.toList
  simp only [toList_store, List.mem_append, List.mem_cons, hdigits, hfield, hpayload, or_false,
    Char.reduceEq, not_false_eq_true]

/-- **A stored directive is one line, and is read back as the directive**, if its range does not end
before it starts. Its payload may hold anything; like every text in memory it is shorter than
`2 ^ 64` bytes. -/
theorem parse_store (d : Directive) (hrange : d.first ≤ d.last)
    (hsize : byteLength d.payload.toList ≤ 0xFFFFFFFFFFFFFFFF) :
    '\n' ∉ d.store.toList ∧ parse d.store = .ok d := by
  refine ⟨newline_not_mem_store d, ?_⟩
  have hforward : ¬d.last.toNat < d.first.toNat := by
    rw [UInt16.le_iff_toNat_le] at hrange
    omega
  have hread : read d.store.toList = .ok d := by
    rw [read, splitOnUpTo_store]
    simp only [readField_fixed _ d.code_lt, readField_fixed _ d.first.toNat_lt,
      readField_fixed _ d.last.toNat_lt, readPayload_newlineField hsize, hforward,
      readAnnotation_payload, bind, Except.bind, if_false, UInt16.ofNat_toNat]
    rfl
  rw [parse, hread]

/-- A comment with separators of fields, line feeds at both ends and a character of two bytes. -/
theorem parse_store_sample :
    let d : Directive := ⟨0x8000, 0x8003, .reference .before .both 0x8005 "\n#é#\r\n\n"⟩
    '\n' ∉ d.store.toList ∧ parse d.store = .ok d := by
  intro d
  exact parse_store d (by decide) (by decide +kernel)

end Directive
end Disassembly
