/-
# Messages are read back

The lines of a message tell its bytes. Their reader goes from character to character and keeps what
it has read of an item (`Place`): a run of characters in quotes, in which two quotes stand for one,
a character in quotes with a number added to it, or a number. A comma outside quotes ends an item,
and so does the end of the line. Behind each sign of a line the reader stands where the sign ends
(`Stops`), so it finds one byte for each sign (`Stops.read?_textBehind`). The reader depends on the
character set alone: the mark of a number tells its base.
-/

import Disassembly.Proofs.Numeral.Operand
import Disassembly.Proofs.Routine.MessageRun

namespace Disassembly

namespace CharacterSet

variable {charset : CharacterSet} {b : UInt8} {c : Char}

/-- Whether a code renders as this character. -/
def shows (charset : CharacterSet) (c : Char) (code : UInt8) : Bool :=
  match charset.glyph code with
  | .printable c' => c' = c
  | _ => false

/-- The first code that renders as this character. -/
def code? (charset : CharacterSet) (c : Char) : Option UInt8 :=
  ((List.range 0x100).map UInt8.ofNat).find? (charset.shows c)

/-- **No two codes render as the same character.** -/
def IsFaithful (charset : CharacterSet) : Prop :=
  ∀ ⦃b b' : UInt8⦄ ⦃c : Char⦄, charset.glyph b = .printable c → charset.glyph b' = .printable c →
    b = b'

theorem shows_iff : charset.shows c b = true ↔ charset.glyph b = .printable c := by
  unfold shows
  cases charset.glyph b <;> simp

/-- A character is mapped back to its code. -/
theorem IsFaithful.code?_eq_some (hfaithful : charset.IsFaithful)
    (h : charset.glyph b = .printable c) : charset.code? c = some b := by
  have hmem : b ∈ (List.range 0x100).map UInt8.ofNat :=
    List.mem_map.2 ⟨b.toNat, List.mem_range.2 b.toNat_lt, UInt8.ofNat_toNat⟩
  cases hfind : charset.code? c with
  | none => exact absurd (shows_iff.2 h) (List.find?_eq_none.1 hfind b hmem)
  | some b' => rw [hfaithful h (shows_iff.1 (List.find?_some hfind))]

end CharacterSet

namespace Spectrum

/-- The code of a printable character. -/
def code (c : Char) : Nat :=
  if c = '↑' then 0x5E else if c = '£' then 0x60 else if c = '©' then 0x7F else c.toNat

/-- The printable characters of the Spectrum differ from each other. -/
theorem isFaithful_charset : charset.IsFaithful := by
  have hcode (b : UInt8) (c : Char) (h : glyph b = .printable c) : code c = b.toNat := by
    have hall : ∀ n : Fin 0x80, code (translate (Char.ofNat n)) = n.val := by decide +kernel
    simp only [glyph] at h
    split_ifs at h with _ _ _ hprintable
    obtain rfl := Glyph.printable.inj h
    exact hall ⟨b.toNat, Nat.lt_succ_of_le hprintable⟩
  intro b b' c h h'
  exact UInt8.toNat_inj.1 ((hcode b c h).symm.trans (hcode b' c h'))

end Spectrum

namespace Routine

open Script

namespace Message

/-! ### The reader -/

/-- Where the reader of a line stands, with what it has read of an item. -/
inductive Place
  | front
  | quoted (run : List Char)
  /-- Behind a quote, which ends the run unless it is the first of two. -/
  | behindQuote (run : List Char)
  | number (text : List Char)
  | marked (c : Char) (text : List Char)

namespace Place

def isQuoted : Place → Bool
  | quoted _ => true
  | _ => false

/-- The place behind a character. -/
def next? : Place → Char → Option Place
  | front, c => some (if c = '"' then quoted [] else number [c])
  | quoted run, c => some (if c = '"' then behindQuote run else quoted (run ++ [c]))
  | behindQuote run, c =>
    if c = '"' then some (quoted (run ++ ['"']))
    else match run with
      | [c'] => if c = '+' then some (marked c' []) else none
      | _ => none
  | number text, c => some (number (text ++ [c]))
  | marked c' text, c => some (marked c' (text ++ [c]))

/-- The byte that a number stands for. -/
def byte? (text : List Char) : Option UInt8 :=
  (Numeral.readOperand? text).bind fun n => if n < 0x100 then some (UInt8.ofNat n) else none

/-- The bytes that an item stands for, if it can end here. -/
def bytes? (charset : CharacterSet) : Place → Option (List UInt8)
  | front => some []
  | quoted _ => none
  | behindQuote run => run.mapM charset.code?
  | number text => (byte? text).map fun b => [b]
  | marked c text => (charset.code? c).bind fun b => (byte? text).map fun b' => [b + b']

/-- The bytes of a line from a place on. -/
def read? (charset : CharacterSet) : Place → List Char → Option (List UInt8)
  | place, [] => place.bytes? charset
  | place, c :: cs =>
    -- in quotes a comma is a character like others
    if c = ',' ∧ place.isQuoted = false then
      (place.bytes? charset).bind fun bytes => (read? charset front cs).map (bytes ++ ·)
    else (place.next? c).bind fun place => read? charset place cs

end Place

/-- The bytes of a line of a message. -/
def readLine? (charset : CharacterSet) (text : String) : Option (List UInt8) :=
  Place.front.read? charset text.toList

/-- **The bytes of a message on lines.** -/
def readMessage? (charset : CharacterSet) (texts : List String) : Option (List UInt8) :=
  (texts.mapM (readLine? charset)).map List.flatten

/-! ### Signs are read -/

variable {charset : CharacterSet} {style : Style} {b : UInt8} {s : Sign} {place : Place}
  {bytes : List UInt8}

theorem Sign.toList_quote_char (c : Char) : (Sign.char c).quote.toList = ['"'] := by
  have hquote : (Sign.char c).quote = "\"" := if_pos rfl
  rw [hquote]
  rfl

theorem Sign.toList_quote_other (text : String) : (Sign.other text).quote.toList = [] := rfl

namespace Place

/-- Quotes are opened. -/
theorem read?_open (charset : CharacterSet) (rest : List Char) :
    front.read? charset ('"' :: rest) = (quoted []).read? charset rest := rfl

/-- Quotes are closed. -/
theorem read?_close (charset : CharacterSet) (run rest : List Char) :
    (quoted run).read? charset ('"' :: rest) = (behindQuote run).read? charset rest := rfl

/-- In quotes a character is read, and two quotes for one. -/
theorem read?_quotedChar (charset : CharacterSet) (run : List Char) (c : Char) (rest : List Char) :
    (quoted run).read? charset ((Draft.quotedChar c).toList ++ rest) =
      (quoted (run ++ [c])).read? charset rest := by
  by_cases hc : c = '"'
  · subst hc
    rfl
  · have htext : (Draft.quotedChar c).toList = [c] := by
      rw [Draft.quotedChar, if_neg hc, String.toList_singleton]
    rw [htext, List.singleton_append, read?, if_neg (by simp [isQuoted]), next?, if_neg hc,
      Option.bind_some]

/-- Behind an item a comma ends it. -/
theorem read?_comma (h : place.isQuoted = false) (hbytes : place.bytes? charset = some bytes)
    (rest : List Char) :
    place.read? charset (',' :: rest) = (front.read? charset rest).map (bytes ++ ·) := by
  rw [read?, if_pos ⟨rfl, h⟩, hbytes, Option.bind_some]

/-- The characters of a number are read one by one, in either place that collects them. -/
theorem read?_append {collect : List Char → Place}
    (hnext : ∀ text c, (collect text).next? c = some (collect (text ++ [c]))) {cs : List Char}
    (h : ∀ c ∈ cs, c ≠ ',') (text rest : List Char) :
    (collect text).read? charset (cs ++ rest) = (collect (text ++ cs)).read? charset rest := by
  induction cs generalizing text with
  | nil => rw [List.nil_append, List.append_nil]
  | cons c cs ih =>
    have hc : ¬(c = ',' ∧ (collect text).isQuoted = false) := fun hc =>
      h c List.mem_cons_self hc.1
    rw [List.cons_append, read?, if_neg hc, hnext, Option.bind_some,
      ih fun c hc => h c (List.mem_cons_of_mem _ hc), List.append_assoc, List.singleton_append]

/-- A number is an item. -/
theorem read?_number {text : List Char} (hne : text ≠ []) (h : ∀ c ∈ text, c ≠ ',' ∧ c ≠ '"')
    (rest : List Char) :
    front.read? charset (text ++ rest) = (number text).read? charset rest := by
  obtain ⟨c, cs, rfl⟩ := List.exists_cons_of_ne_nil hne
  obtain ⟨hcomma, hquote⟩ := h c List.mem_cons_self
  have hcs : ∀ c ∈ cs, c ≠ ',' := fun c hc => (h c (List.mem_cons_of_mem _ hc)).1
  rw [List.cons_append, read?, if_neg fun hc => hcomma hc.1, next?, if_neg hquote,
    Option.bind_some, read?_append (fun _ _ => rfl) hcs, List.singleton_append]

/-- A character in quotes with a number added to it is an item. -/
theorem read?_marked (c : Char) {text : List Char} (h : ∀ c ∈ text, c ≠ ',') (rest : List Char) :
    front.read? charset ('"' :: ((Draft.quotedChar c).toList ++ '"' :: '+' :: (text ++ rest))) =
      (marked c text).read? charset rest :=
  calc front.read? charset ('"' :: ((Draft.quotedChar c).toList ++ '"' :: '+' :: (text ++ rest)))
    _ = (quoted []).read? charset ((Draft.quotedChar c).toList ++ '"' :: '+' :: (text ++ rest)) :=
      rfl
    _ = (quoted [c]).read? charset ('"' :: '+' :: (text ++ rest)) :=
      read?_quotedChar charset [] c _
    _ = (marked c []).read? charset (text ++ rest) := rfl
    _ = (marked c text).read? charset rest := read?_append (fun _ _ => rfl) h [] rest

/-- The operand of a byte is read back. -/
theorem byte?_operand (b : UInt8) (base : Base) :
    byte? (Numeral.operand b.toNat .byte base false).toList = some b := by
  have hb : b.toNat < Width.byte.modulus := b.toNat_lt
  rw [byte?, Numeral.readOperand?_operand hb base, Option.bind_some, if_pos b.toNat_lt,
    UInt8.ofNat_toNat]

/-- The characters of the operand of a byte end no item and open no quotes. -/
theorem ne_of_mem_operand (b : UInt8) (base : Base) :
    (Numeral.operand b.toNat .byte base false).toList ≠ [] ∧
      ∀ c ∈ (Numeral.operand b.toNat .byte base false).toList, c ≠ ',' ∧ c ≠ '"' := by
  have hb : b.toNat < Width.byte.modulus := b.toNat_lt
  obtain ⟨hne, hchars⟩ := Numeral.readOperand?_eq_some (Numeral.readOperand?_operand hb base)
  refine ⟨hne, fun c hc => ⟨?_, ?_⟩⟩
  all_goals
    rintro rfl
    have hchar := hchars _ hc
    revert hchar
    decide

end Place

/-- A character plus 128 is the byte with bit 7 set. -/
theorem and_add_of_testBit (h : b.toNat.testBit 7 = true) : (b &&& 0x7F) + 0x80 = b := by
  rw [Nat.testBit_eq_decide_div_mod_eq, decide_eq_true_eq] at h
  have hb := b.toNat_lt
  apply UInt8.toNat_inj.1
  have hand : (b &&& 0x7F).toNat = b.toNat % 128 := by
    rw [UInt8.toNat_and]
    exact Nat.and_two_pow_sub_one_eq_mod b.toNat 7
  rw [UInt8.toNat_add, hand]
  change (b.toNat % 128 + 128) % 256 = b.toNat
  omega

/-- **The reader stands behind a sign**: in open quotes behind a character, and at the end of an
item behind others. -/
inductive Stops (charset : CharacterSet) : Sign → Place → List UInt8 → Prop
  | char (c : Char) {run : List Char} {bytes : List UInt8}
    (h : run.mapM charset.code? = some bytes) : Stops charset (.char c) (.quoted run) bytes
  | other (text : String) {place : Place} {bytes : List UInt8} (hquoted : place.isQuoted = false)
    (h : place.bytes? charset = some bytes) : Stops charset (.other text) place bytes

/-- **A sign is read**: from the front of an item the reader comes to stand behind it. -/
theorem Stands.exists_stops (hfaithful : charset.IsFaithful) (h : Stands charset style b s) :
    ∃ place, Stops charset s place [b] ∧ ∀ rest,
      Place.front.read? charset (s.quote.toList ++ (s.text.toList ++ rest)) =
        place.read? charset rest := by
  cases h with
  | @char c hglyph =>
    refine ⟨.quoted [c], .char c ?_, fun rest => ?_⟩
    · rw [List.mapM_cons, hfaithful.code?_eq_some hglyph]
      rfl
    · rw [Sign.toList_quote_char, List.singleton_append, Place.read?_open]
      exact Place.read?_quotedChar charset [] c rest
  | number =>
    obtain ⟨hne, hchars⟩ := Place.ne_of_mem_operand b style.base
    refine ⟨.number (Numeral.operand b.toNat .byte style.base false).toList, .other _ rfl ?_,
      Place.read?_number hne hchars⟩
    rw [Place.bytes?, Place.byte?_operand]
    rfl
  | @marked c hglyph hbit =>
    have hmarker : Place.byte? (Numeral.operand 0x80 .byte style.base false).toList = some 0x80 :=
      Place.byte?_operand 0x80 style.base
    have hchars : ∀ c ∈ (Numeral.operand 0x80 .byte style.base false).toList, c ≠ ',' :=
      fun c hc => ((Place.ne_of_mem_operand 0x80 style.base).2 c hc).1
    refine ⟨.marked c (Numeral.operand 0x80 .byte style.base false).toList, .other _ rfl ?_,
      fun rest => ?_⟩
    · rw [Place.bytes?, hfaithful.code?_eq_some hglyph, Option.bind_some, hmarker, Option.map_some,
        and_add_of_testBit hbit]
    · rw [← Place.read?_marked c hchars rest, Sign.toList_quote_other]
      simp [Sign.text]

/-- At the end of a line the item ends. -/
theorem Stops.read?_quote (h : Stops charset s place bytes) :
    place.read? charset s.quote.toList = some bytes := by
  cases h with
  | char c h =>
    rw [Sign.toList_quote_char, Place.read?_close]
    exact h
  | other text hquoted h => exact h

/-- Before a comma the item ends. -/
theorem Stops.read?_comma (h : Stops charset s place bytes) (rest : List Char) :
    place.read? charset (s.quote.toList ++ ',' :: rest) =
      (Place.front.read? charset rest).map (bytes ++ ·) := by
  cases h with
  | @char c run _ h =>
    have hbytes : (Place.behindQuote run).bytes? charset = some bytes := h
    rw [Sign.toList_quote_char, List.singleton_append, Place.read?_close,
      Place.read?_comma rfl hbytes]
  | other text hquoted h => exact Place.read?_comma hquoted h rest

/-- **A sign is read behind another.** Characters share their quotes, so the run goes on; else the
item ends at the comma. -/
theorem Stops.exists_next (hfaithful : charset.IsFaithful) {s' : Sign}
    (h : Stops charset s place bytes) (hstands : Stands charset style b s') :
    -- `front` is what the items in front have given, if one has ended
    ∃ place' bytes' front, Stops charset s' place' bytes' ∧ front ++ bytes' = bytes ++ [b] ∧
      ∀ rest, place.read? charset ((s.between s').toList ++ (s'.text.toList ++ rest)) =
        (place'.read? charset rest).map (front ++ ·) := by
  by_cases hjoined : (s.isChar && s'.isChar) = true
  · rw [Sign.between, if_pos hjoined]
    cases h with
    | other text hquoted h => cases hjoined
    | @char c run _ h =>
      cases hstands with
      | number => cases hjoined
      | marked => cases hjoined
      | @char c' hglyph =>
        refine ⟨.quoted (run ++ [c']), bytes ++ [b], [], .char c' ?_, rfl, fun rest => ?_⟩
        · rw [List.mapM_append, h, List.mapM_cons, hfaithful.code?_eq_some hglyph]
          rfl
        · have hread := Place.read?_quotedChar charset run c' rest
          simp only [List.nil_append, Option.map_id']
          exact hread
  · obtain ⟨place', hstops, hread⟩ := hstands.exists_stops hfaithful
    refine ⟨place', [b], bytes, hstops, rfl, fun rest => ?_⟩
    have hbetween : (s.between s').toList = s.quote.toList ++ ',' :: s'.quote.toList := by
      rw [Sign.between, if_neg hjoined, String.toList_append, String.toList_append,
        List.append_assoc]
      rfl
    rw [hbetween, List.append_assoc, List.cons_append, h.read?_comma, hread]

/-- **The signs behind a sign are read**, one byte for each. -/
theorem Stops.read?_textBehind (hfaithful : charset.IsFaithful) {signs : List Sign}
    {bytes' : List UInt8} (h : Stops charset s place bytes)
    (hsigns : List.Forall₂ (Stands charset style) bytes' signs) :
    place.read? charset (s.textBehind signs).toList = some (bytes ++ bytes') := by
  induction hsigns generalizing s place bytes with
  | nil => rw [Sign.textBehind, h.read?_quote, List.append_nil]
  | @cons b s' bytes' signs hstands _ ih =>
    obtain ⟨place', last, front, hstops, hbytes, hread⟩ := h.exists_next hfaithful hstands
    rw [Sign.textBehind, String.toList_append, String.toList_append, List.append_assoc, hread,
      ih hstops, Option.map_some, ← List.append_assoc, hbytes, List.append_assoc,
      List.singleton_append]

/-- **A line is read back.** -/
theorem readLine?_lineText (hfaithful : charset.IsFaithful) {signs : List Sign}
    (h : List.Forall₂ (Stands charset style) bytes signs) :
    readLine? charset (Sign.lineText signs) = some bytes := by
  cases h with
  | nil => rfl
  | cons hstands hrest =>
    obtain ⟨place, hstops, hread⟩ := hstands.exists_stops hfaithful
    rw [readLine?, Sign.lineText, String.toList_append, String.toList_append, List.append_assoc,
      hread, hstops.read?_textBehind hfaithful hrest, List.singleton_append]

example : readLine? Spectrum.charset "\"£\"\"\",5,%00000001,\",\"+@200" =
    some [0x60, 0x22, 5, 1, 0xAC] := by decide +kernel

/-- **The pages of a message are read back**, wherever lines were broken. -/
theorem readMessage?_pages (hfaithful : charset.IsFaithful) {pages : List (List Sign)}
    (h : List.Forall₂ (Stands charset style) bytes pages.flatten) :
    readMessage? charset (pages.map Sign.lineText) = some bytes := by
  induction pages generalizing bytes with
  | nil =>
    obtain rfl := List.forall₂_nil_right_iff.1 h
    rfl
  | cons page pages ih =>
    rw [List.flatten_cons] at h
    have hpage := readLine?_lineText hfaithful (List.forall₂_take_append _ _ _ h)
    have hpages := ih (List.forall₂_drop_append _ _ _ h)
    obtain ⟨lines, hlines, hflatten⟩ := Option.map_eq_some_iff.1 hpages
    rw [readMessage?, List.map_cons, List.mapM_cons, hpage, hlines]
    show some (_ ++ lines.flatten) = some bytes
    rw [hflatten, List.take_append_drop]

end Message

variable {setting : Setting} {c : Context} {a : Arguments} {t : Terminator} {style : Message.Style}

/-- **The lines of a message tell its bytes.** A message that ends with its block, with a zero byte
or with bit 7 is put on lines, and what the lines show behind title and separator is read back as
the bytes of the message, in every base and however many bytes stand on a line. A dump that ends
well has found such a message. -/
theorem messageDump_lossless (hfaithful : setting.charset.IsFaithful)
    (ht : t = .raw ∨ t = .zero ∨ t = .highBit) (ha : a.AsksMessage c.format.base t style) :
    (∀ bytes, Message.IsMessage setting.charset.operands t.ends c.remaining bytes →
      setting.image.Holds c.position bytes →
      ∃ c' lines texts, messageDump setting a c = .ok () c' ∧
        c'.lines.toList = c.lines.toList ++ lines ∧
        lines.filterMap Line.dataText? =
          style.framed setting.scope.separator c.lineText texts ∧
        Message.readMessage? setting.charset texts = some bytes) ∧
    ∀ c', messageDump setting a c = .ok () c' →
      ∃ bytes, Message.IsMessage setting.charset.operands t.ends c.remaining bytes ∧
        setting.image.Holds c.position bytes := by
  rw [messageDump_eq ha]
  constructor
  · intro bytes hmessage hholds
    obtain ⟨last, c', hrun, ⟨pages, hstands, hprogress⟩, -⟩ :=
      Message.run_of_message style ht hmessage hholds
    obtain ⟨lines, hlines, htexts⟩ := hprogress.lines
    exact ⟨c', lines, pages.map Message.Sign.lineText, hrun, hlines, htexts,
      Message.readMessage?_pages hfaithful hstands⟩
  · intro c' hrun
    obtain ⟨bytes, hholds, hmessage⟩ := Message.message_of_run ht hrun
    exact ⟨bytes, hmessage, hholds⟩

/-- A message in a buffer, with quotes and a comma among its characters, and characters among the
parameters of a control code. The last of its bytes has bit 7 set, and one byte is behind it. -/
def quotedBytes : Setting :=
  ⟨⟨#[0x22, 0x60, 0x2C, 0x16, 0x41, 0xA2, 0x22, 0xA2, 0x78], 0, 0x9000, 9, by decide, by decide⟩,
    {}, Spectrum.charset, Spectrum.floats⟩

/-- A script over the message, in octal. -/
def quotedContext : Context :=
  { Context.start quotedBytes (.ofList []) ∅ 0x9000 0x9008 with format.base := .octal }

/-- The message on lines of three bytes is read back. -/
theorem messageDump_lossless_quotedBytes :
    ∃ c' lines texts,
      messageDump quotedBytes ⟨"MessageDump", [.string "highbit", .int 3], []⟩ quotedContext =
        .ok () c' ∧
      c'.lines.toList = quotedContext.lines.toList ++ lines ∧
      lines.filterMap Line.dataText? =
        Message.Style.framed ⟨"DMH", .octal, 3⟩ quotedBytes.scope.separator quotedContext.lineText
          texts ∧
      Message.readMessage? Spectrum.charset texts =
        some [0x22, 0x60, 0x2C, 0x16, 0x41, 0xA2, 0x22, 0xA2] := by
  have hname : Terminator.ofName? "highbit" = some .highBit := by
    have hlower : "highbit".toLower = "highbit" := by decide +kernel
    simp only [Terminator.ofName?, hlower]
  have hends : Message.EndsAt Spectrum.operands Terminator.highBit.ends
      ([0x22, 0x60, 0x2C, 0x16, 0x41, 0xA2, 0x22] ++ [0xA2]) 7 :=
    Message.endIndex?_eq_some_iff.1 (by decide)
  rw [← Spectrum.operands_charset] at hends
  exact (messageDump_lossless Spectrum.isFaithful_charset (.inr (.inr rfl))
    ⟨⟨"highbit", rfl, hname⟩, rfl, rfl, rfl⟩).1 _ (.ended (by decide) hends)
    ⟨rfl, rfl, rfl, rfl, rfl, rfl, rfl, rfl, trivial⟩

end Routine
end Disassembly
