/-
# Files of directives

A file holds stored directives, one on each line, and carriage returns are taken off the ends of its
lines. So a directive from a file never ends with one (`not_endsInReturn_of_mem_fileLines`): what is
read is stored again with the same text, and only the digits in front of the text may be written in
another way (`SameText`). A file that is written from directives has one line for each of them, and it
is read back exactly if none of them ends with a carriage return (`parseFile_fileText_iff`).
-/

import Disassembly.Proofs.Directive.RoundTrip
import Disassembly.Proofs.Script.Action
import Mathlib.Data.List.Forall2

namespace Disassembly

/-- Results are collected exactly if there is one for each item. -/
theorem mapM_eq_ok_iff {ε α β : Type} {f : α → Except ε β} {xs : List α} {ys : List β} :
    xs.mapM f = .ok ys ↔ List.Forall₂ (fun x y => f x = .ok y) xs ys := by
  induction xs generalizing ys with
  | nil =>
    rw [List.mapM_nil, List.forall₂_nil_left_iff]
    exact ⟨fun h => (Except.ok.inj h).symm, fun h => h ▸ rfl⟩
  | cons x xs ih =>
    rw [List.mapM_cons, List.forall₂_cons_left_iff]
    constructor
    · intro h
      obtain ⟨y, hy, h⟩ := exists_ok_of_bind h
      obtain ⟨rest, hrest, h⟩ := exists_ok_of_bind h
      exact ⟨y, rest, hy, ih.1 hrest, (Except.ok.inj h).symm⟩
    · rintro ⟨y, rest, hy, hrest, rfl⟩
      rw [hy, ih.2 hrest]
      rfl

/-- What is collected are the results. -/
theorem mem_iff_of_mapM {ε α β : Type} {f : α → Except ε β} {xs : List α} {ys : List β}
    (h : xs.mapM f = .ok ys) {y : β} : y ∈ ys ↔ ∃ x ∈ xs, f x = .ok y := by
  have hresults := mapM_eq_ok_iff.1 h
  clear h
  induction hresults with
  | nil => simp
  | @cons x z xs ys hz _ ih =>
    have hrest : y ∈ ys ↔ ∃ x ∈ xs, f x = .ok y := ih
    rw [List.mem_cons, hrest, List.exists_mem_cons_iff, hz, Except.ok.injEq, eq_comm]

namespace Directive

open Text

/-- Whether the stored form of a directive ends with a carriage return. -/
def EndsInReturn (d : Directive) : Prop := d.store.toList.getLast? = some '\r'

instance : DecidablePred EndsInReturn :=
  fun d => inferInstanceAs (Decidable (d.store.toList.getLast? = some '\r'))

theorem parse_eq_ok_iff {line : String} {d : Directive} :
    parse line = .ok d ↔ read line.toList = .ok d := by
  rw [parse]
  cases read line.toList with
  | ok found => simp
  | error flaw => simp

/-- A stored directive ends with a carriage return if its payload does. -/
theorem endsInReturn_iff {d : Directive} :
    EndsInReturn d ↔ (flat d.payload.toList).getLast? = some '\r' := by
  rw [EndsInReturn, toList_store_eq]
  cases hpayload : flat d.payload.toList with
  | nil => simp
  | cons c cs => simp [List.getLast?_append, List.getLast?_cons_cons]

/-- What is read behind the fields of a directive, whatever payload stands there. -/
theorem read_storedFront (d : Directive) (hrange : d.first ≤ d.last) (cs : List Char) :
    read (storedFront d ++ '#' :: cs) = do
      let payload ← readPayload (newlineField d.payload.toList) cs
      let kind ← readAnnotation d.code payload
      return ⟨d.first, d.last, kind⟩ := by
  have hforward : ¬d.last.toNat < d.first.toNat := by
    rw [UInt16.le_iff_toNat_le] at hrange
    omega
  rw [read, splitOnUpTo_storedFront]
  simp only [readField_fixed _ d.code_lt, readField_fixed _ d.first.toNat_lt,
    readField_fixed _ d.last.toNat_lt, hforward, bind, Except.bind, if_false, UInt16.ofNat_toNat]

/-- A stored directive starts with a letter or a digit. -/
theorem exists_cons_storedFront (d : Directive) (cs : List Char) :
    ∃ c rest, storedFront d ++ cs = c :: rest ∧ c.isAlphanum = true := by
  have hpos : 0 < (Numeral.fixedDigits 16 4 d.code).length := by
    rw [Numeral.length_fixedDigits]
    decide
  obtain ⟨c, rest, hcons⟩ := List.exists_cons_of_length_pos hpos
  have hmem : c ∈ Numeral.fixedDigits 16 4 d.code := hcons ▸ List.mem_cons_self
  rw [storedFront, hcons]
  exact ⟨c, _, rfl, Numeral.isAlphanum_of_mem_fixedDigits hmem⟩

/-- Two texts that differ at most in digits that they start with. -/
def SameText (cs cs' : List Char) : Prop :=
  ∃ digits digits' text, cs = digits ++ text ∧ cs' = digits' ++ text ∧
    byteLength digits = byteLength digits' ∧ (∀ c ∈ digits, c.isAlphanum = true) ∧
    ∀ c ∈ digits', c.isAlphanum = true

namespace SameText

theorem refl (cs : List Char) : SameText cs cs :=
  ⟨[], [], cs, rfl, rfl, rfl, fun _ hc => absurd hc List.not_mem_nil,
    fun _ hc => absurd hc List.not_mem_nil⟩

theorem ofList (cs : List Char) : SameText cs (String.ofList cs).toList := by
  rw [String.toList_ofList]
  exact refl cs

variable {cs cs' : List Char}

theorem byteLength_eq (h : SameText cs cs') : byteLength cs = byteLength cs' := by
  obtain ⟨digits, digits', text, rfl, rfl, hlen, -, -⟩ := h
  rw [byteLength_append, byteLength_append, hlen]

/-- If one of the texts ends with a carriage return, it does not end with its digits, so the other
ends with a carriage return too. -/
theorem getLast?_eq (h : SameText cs cs') (hlast : cs'.getLast? = some '\r') :
    cs.getLast? = some '\r' := by
  obtain ⟨digits, digits', text, rfl, rfl, -, -, halphanum⟩ := h
  cases text with
  | nil =>
    rw [List.append_nil] at hlast
    have hmem := halphanum '\r' (List.mem_of_getLast? hlast)
    exact absurd hmem (by decide)
  | cons c text => simpa [List.getLast?_append] using hlast

theorem flat (h : SameText cs cs') : SameText (flat cs) (Directive.flat cs') := by
  obtain ⟨digits, digits', text, rfl, rfl, hlen, hdigits, hdigits'⟩ := h
  have hnewline : '\n' ∉ digits := fun hmem => absurd (hdigits _ hmem) (by decide)
  have hnewline' : '\n' ∉ digits' := fun hmem => absurd (hdigits' _ hmem) (by decide)
  refine ⟨digits, digits', Directive.flat text, ?_, ?_, hlen, hdigits, hdigits'⟩
  · rw [flat_append, flat_eq_self hnewline]
  · rw [flat_append, flat_eq_self hnewline']

end SameText

/-- A number is read from digits, and stored in as many digits. -/
theorem readLeading_sameText {count n : Nat} {cs text : List Char}
    (h : readLeading count cs = .ok (n, text)) (value : Nat) :
    SameText cs (Numeral.fixedDigits 16 count value ++ text) := by
  unfold readLeading at h
  split at h
  · exact absurd h (by simp)
  · rename_i digits rest hcut
    obtain ⟨rfl, hlen⟩ := splitAtByte?_eq_some hcut
    split at h
    · rename_i k hread
      obtain ⟨-, rfl⟩ := Prod.mk.inj (Except.ok.inj h)
      refine ⟨digits, Numeral.fixedDigits 16 count value, rest, rfl, rfl, ?_,
        (Numeral.readHex?_eq_some hread).1, fun c => Numeral.isAlphanum_of_mem_fixedDigits⟩
      rw [hlen, byteLength_of_isAlphanum fun c => Numeral.isAlphanum_of_mem_fixedDigits,
        Numeral.length_fixedDigits]
    · exact absurd h (by simp)

/-- A format change is stored with the text that it is read from. -/
theorem readFormat_sameText (first last : UInt16) {option : Nat} {cs : List Char}
    {change : Scope.Change} (h : readFormat option cs = .ok change) :
    SameText cs (payload ⟨first, last, .format change⟩).toList := by
  unfold readFormat at h
  split at h
  · obtain rfl := Except.ok.inj h
    exact .ofList cs
  · split at h
    · obtain ⟨⟨packed, separator⟩, hleading, rfl⟩ := exists_ok_of_map h
      have htext := readLeading_sameText hleading
        (Scope.unpack packed (String.ofList separator)).pack
      have hseparator : (Scope.unpack packed (String.ofList separator)).separator.toList =
        separator := String.toList_ofList
      simpa only [payload, Numeral.fixed, Base.radix, String.toList_append, String.toList_ofList,
        hseparator] using htext
    · obtain ⟨⟨value, rest⟩, hleading, hrest⟩ := exists_ok_of_bind h
      -- a simple value is two digits with nothing behind them
      have hdigits := readLeading_sameText hleading
      by_cases hnil : rest = []
      · subst hnil
        simp only [ne_eq, not_true_eq_false, if_false] at hrest
        split at hrest
        · rename_i found hfound
          obtain rfl := Except.ok.inj hrest
          obtain ⟨byte, hbyte⟩ := Scope.Change.byte?_of_ofOption? hfound
          rw [payload_of_byte first last hbyte]
          simpa using hdigits byte.toNat
        · exact absurd hrest (by simp [throw, throwThe, MonadExceptOf.throw])
      · simp only [ne_eq, hnil, not_false_eq_true, if_true] at hrest
        exact absurd hrest (by simp [bind, Except.bind, throw, throwThe, MonadExceptOf.throw])

/-- A comment is stored with the text that it is read from. -/
theorem readComment_sameText (first last : UInt16) {mode : Nat} {position : Position}
    {cs : List Char} {kind : Annotation}
    (h : readComment mode position cs = .ok kind) :
    SameText cs (payload ⟨first, last, kind⟩).toList := by
  have hreference (matching : ReferenceMatch)
      (h : (readLeading 4 cs).map (fun leading =>
        Annotation.reference position matching (UInt16.ofNat leading.1)
          (String.ofList leading.2)) =
          .ok kind) : SameText cs (payload ⟨first, last, kind⟩).toList := by
    obtain ⟨⟨value, text⟩, hleading, rfl⟩ := exists_ok_of_map h
    simpa only [payload, Numeral.fixed, Base.radix, String.toList_append,
      String.toList_ofList] using
      readLeading_sameText hleading (UInt16.ofNat value).toNat
  have hdisplacement (matching : DisplacementMatch)
      (h : (readLeading 2 cs).map (fun leading =>
        Annotation.displacement position matching (UInt8.ofNat leading.1).toInt8
          (String.ofList leading.2)) =
          .ok kind) : SameText cs (payload ⟨first, last, kind⟩).toList := by
    obtain ⟨⟨value, text⟩, hleading, rfl⟩ := exists_ok_of_map h
    simpa only [payload, Numeral.fixed, Base.radix, String.toList_append,
      String.toList_ofList] using
      readLeading_sameText hleading (UInt8.ofNat value).toInt8.toUInt8.toNat
  simp only [readComment] at h
  split at h
  · obtain rfl := Except.ok.inj h
    exact .ofList cs
  · exact hreference .address h
  · exact hreference .number h
  · exact hreference .both h
  · exact hdisplacement .ix h
  · exact hdisplacement .iy h
  · exact hdisplacement .both h
  · exact absurd h (by simp)

/-- **An annotation is stored with the text that it is read from**; only the digits in front of it may
be written in another way. -/
theorem readAnnotation_sameText (first last : UInt16) {code : Nat} {cs : List Char}
    {kind : Annotation} (h : readAnnotation code cs = .ok kind) :
    SameText cs (payload ⟨first, last, kind⟩).toList := by
  unfold readAnnotation at h
  dsimp only at h
  split at h
  · obtain ⟨change, hchange, rfl⟩ := exists_ok_of_map h
    exact readFormat_sameText first last hchange
  · split at h
    · obtain rfl := Except.ok.inj h
      exact .ofList cs
    · exact absurd h (by simp)
  · split at h
    · obtain rfl := Except.ok.inj h
      exact .ofList cs
    · exact absurd h (by simp)
  · split at h
    · exact readComment_sameText first last h
    · exact absurd h (by simp)
  · exact absurd h (by simp)

/-- Putting line feeds in changes nothing else. -/
theorem flat_insertNewlines (position : Nat) (offsets : List Nat) (cs : List Char) :
    flat (insertNewlines position offsets cs) = flat cs := by
  induction offsets generalizing position cs with
  | nil => rfl
  | cons n ns ih =>
    rw [insertNewlines]
    split
    · rename_i piece rest hcut
      obtain ⟨rfl, -⟩ := splitAtByte?_eq_some hcut
      rw [flat_append, flat_newline, ih, flat_append]
    · rfl

theorem flat_of_readPayload {newlines cs payload : List Char}
    (h : readPayload newlines cs = .ok payload) : flat payload = flat cs := by
  unfold readPayload at h
  split at h
  · rw [Except.ok.inj h]
  · obtain ⟨offsets, -, rfl⟩ := exists_ok_of_map h
    exact flat_insertNewlines 0 offsets cs

/-- A field of four digits is an address. -/
theorem readField_lt {field : Field} {cs : List Char} {n : Nat} (h : readField field cs = .ok n) :
    n < 0x10000 := by
  unfold readField at h
  split at h
  · exact absurd h (by simp)
  · rename_i hbytes
    split at h
    · rename_i k hread
      obtain rfl := Except.ok.inj h
      obtain ⟨halphanum, hlt⟩ := Numeral.readHex?_eq_some hread
      rw [← byteLength_of_isAlphanum halphanum, Decidable.not_not.1 hbytes] at hlt
      exact hlt
    · exact absurd h (by simp)

/-- **What is read has a range that does not end before it starts**, and is stored with the text of
the line. -/
theorem read_eq_ok {line : List Char} {d : Directive} (h : read line = .ok d) :
    d.first ≤ d.last ∧ ∃ front cs, line = front ++ '#' :: cs ∧
      SameText (flat cs) (flat d.payload.toList) := by
  unfold read at h
  split at h
  · rename_i code first last newlines cs hfields
    obtain ⟨codeValue, hcode, h⟩ := exists_ok_of_bind h
    obtain ⟨firstValue, hfirst, h⟩ := exists_ok_of_bind h
    obtain ⟨lastValue, hlast, h⟩ := exists_ok_of_bind h
    obtain ⟨payload, hpayload, h⟩ := exists_ok_of_bind h
    split at h
    · exact absurd h (by simp [bind, Except.bind, throw, throwThe, MonadExceptOf.throw])
    · rename_i hforward
      obtain ⟨kind, hkind, h⟩ := exists_ok_of_bind h
      obtain rfl := Except.ok.inj h
      have hfirstLt := readField_lt hfirst
      have hlastLt := readField_lt hlast
      refine ⟨?_, [code, first, last, newlines].intersperse ['#'] |>.flatten, cs, ?_, ?_⟩
      · rw [UInt16.le_iff_toNat_le, UInt16.toNat_ofNat_of_lt' hfirstLt,
          UInt16.toNat_ofNat_of_lt' hlastLt]
        omega
      · have hjoin := intercalate_splitOnUpTo '#' 4 line
        rw [hfields] at hjoin
        rw [← hjoin]
        simp [List.intercalate]
      · rw [← flat_of_readPayload hpayload]
        exact (readAnnotation_sameText _ _ hkind).flat
  · exact absurd h (by simp)

/-! ### Files of directives -/

/-- A line of a file does not end with a carriage return, and neither does what is stored of it. -/
theorem not_endsInReturn_of_mem_fileLines {text line : String} {d : Directive}
    (hline : line ∈ fileLines text) (h : parse line = .ok d) : ¬EndsInReturn d := by
  obtain ⟨cs, hcs, rfl⟩ := List.mem_map.1 hline
  obtain ⟨piece, hpiece, rfl⟩ := List.mem_map.1 (List.mem_of_mem_filter hcs)
  have hread : read (dropEndWhile (· = '\r') piece) = .ok d := by
    rwa [parse_eq_ok_iff, String.toList_ofList] at h
  obtain ⟨-, front, cs, hcut, htext⟩ := read_eq_ok hread
  have hfeed : '\n' ∉ cs := by
    intro hmem
    have hin : '\n' ∈ dropEndWhile (· = '\r') piece := by
      rw [hcut]
      exact List.mem_append_right _ (List.mem_cons_of_mem _ hmem)
    exact not_mem_of_mem_splitOn hpiece ((isPrefix_dropEndWhile _ piece).subset hin)
  rw [endsInReturn_iff]
  intro hreturn
  have hlast := htext.getLast?_eq hreturn
  rw [flat_eq_self hfeed] at hlast
  have hend : (dropEndWhile (· = '\r') piece).getLast? = some '\r' := by
    rw [hcut, List.getLast?_append, List.getLast?_cons, hlast]
    rfl
  exact absurd (getLast?_dropEndWhile hend) (by decide)

/-- Carriage returns can be dropped from the payload alone. -/
theorem dropEndWhile_store (d : Directive) : dropEndWhile (· = '\r') d.store.toList =
    storedFront d ++ '#' :: dropEndWhile (· = '\r') (flat d.payload.toList) := by
  rw [toList_store_eq]
  exact dropEndWhile_append_cons (by decide) _ _

/-- **A directive is read back from its stored form without carriage returns at its end exactly if
there are none.** -/
theorem read_dropEndWhile_store_iff {d : Directive} (hrange : d.first ≤ d.last)
    (hsize : byteLength d.payload.toList ≤ 0xFFFFFFFFFFFFFFFF) :
    read (dropEndWhile (· = '\r') d.store.toList) = .ok d ↔ ¬EndsInReturn d := by
  constructor
  · intro h
    rw [dropEndWhile_store, read_storedFront d hrange] at h
    obtain ⟨payload, hpayload, h⟩ := exists_ok_of_bind h
    obtain ⟨kind, hkind, h⟩ := exists_ok_of_bind h
    obtain rfl : kind = d.annotation := congrArg Directive.annotation (Except.ok.inj h)
    -- the payload that was read is as long as the one that was stored, so nothing was dropped
    have hlen := (readAnnotation_sameText d.first d.last hkind).flat.byteLength_eq
    have hnewline : '\n' ∉ dropEndWhile (· = '\r') (flat d.payload.toList) := fun hmem =>
      newline_not_mem_flat _ ((isPrefix_dropEndWhile _ _).subset hmem)
    rw [flat_of_readPayload hpayload, flat_eq_self hnewline] at hlen
    have hsame := eq_of_prefix_of_byteLength (isPrefix_dropEndWhile _ _) hlen
    rw [endsInReturn_iff, ← hsame]
    intro hreturn
    exact absurd (getLast?_dropEndWhile hreturn) (by decide)
  · intro h
    have hsame : dropEndWhile (· = '\r') (flat d.payload.toList) = flat d.payload.toList := by
      refine dropEndWhile_eq_self fun c hc => ?_
      have hne : c ≠ '\r' := by
        rintro rfl
        exact h (endsInReturn_iff.2 hc)
      simpa using hne
    rw [dropEndWhile_store, hsame, read_storedFront d hrange, readPayload_newlineField hsize]
    simp only [bind, Except.bind, readAnnotation_payload]
    rfl

/-- The text of a file with one stored directive on each line. -/
def fileText (ds : List Directive) : String := String.join (ds.map fun d => d.store ++ "\n")

theorem fileLines_fileText (ds : List Directive) : fileLines (fileText ds) =
    ds.map fun d => String.ofList (dropEndWhile (· = '\r') d.store.toList) := by
  have hpieces : splitOn '\n' (fileText ds).toList = ds.map (fun d => d.store.toList) ++ [[]] := by
    have htext : (fileText ds).toList =
        (ds.map fun d => d.store.toList).flatMap (· ++ ['\n']) := by
      rw [fileText, String.toList_join, List.flatMap_map, List.flatMap_map]
      simp only [String.toList_append]
      rfl
    rw [htext, splitOn_flatMap]
    intro piece hpiece
    obtain ⟨d, -, rfl⟩ := List.mem_map.1 hpiece
    exact newline_not_mem_store d
  have hkept : ∀ cs ∈ (ds.map fun d => d.store.toList).map (dropEndWhile (· = '\r')),
      (decide (trim cs ≠ []) && decide (cs.head? ≠ some ';')) = true := by
    intro cs hcs
    rw [List.map_map] at hcs
    obtain ⟨d, -, rfl⟩ := List.mem_map.1 hcs
    obtain ⟨c, rest, hcons, halphanum⟩ := exists_cons_storedFront d
      ('#' :: dropEndWhile (· = '\r') (flat d.payload.toList))
    have hblank := trim_ne_nil (isBlank_of_isAlphanum halphanum) rest
    have hcomment : c ≠ ';' := by
      rintro rfl
      exact absurd halphanum (by decide)
    rw [Function.comp, dropEndWhile_store, hcons]
    simp [hblank, hcomment]
  rw [fileLines, hpieces, List.map_append, List.filter_append, List.filter_eq_self.2 hkept,
    List.map_append, List.map_map, List.map_map]
  exact List.append_nil _

/-- **A file of stored directives is read back exactly if none of them ends with a carriage return.**
-/
theorem parseFile_fileText_iff {ds : List Directive} (hrange : ∀ d ∈ ds, d.first ≤ d.last)
    (hsize : ∀ d ∈ ds, byteLength d.payload.toList ≤ 0xFFFFFFFFFFFFFFFF) :
    parseFile (fileText ds) = .ok ds ↔ ∀ d ∈ ds, ¬EndsInReturn d := by
  rw [parseFile, fileLines_fileText, List.mapM_map, mapM_eq_ok_iff, List.forall₂_same]
  refine forall₂_congr fun d hd => ?_
  rw [← read_dropEndWhile_store_iff (hrange d hd) (hsize d hd), Function.comp, parse_eq_ok_iff,
    String.toList_ofList]

end Directive
end Disassembly
