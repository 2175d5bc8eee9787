/-
# Calls are read back

The text of a call is scanned three times: for the bracket that closes it (`Source.argumentText`),
for the commas between its arguments (`splitArguments`) and, argument by argument, for its value
(`Value.read?`). Each scan has its own way to tell what stands in quotes. A text is closed
(`IsClosed`) if the first two pass over it and are outside quotes behind it; a string in quotes is
closed whatever it holds, because quotes and backslashes in it are marked. So the arguments of a
call, written with blanks around them, are handed to the routine as they are (`call_text`) and are
read as what they stand for (`read_argumentText`).
-/

import Disassembly.Proofs.Numeral.Letters
import Disassembly.Proofs.Numeral.ReadBack
import Disassembly.Proofs.Script.Action
import Disassembly.Script.Eval

namespace Disassembly

/-- Blanks, any number of them. -/
structure Blanks where
  chars : List Char
  isBlank : ∀ c ∈ chars, Text.isBlank c = true

def Blanks.none : Blanks := ⟨[], List.all_eq_true.1 rfl⟩

def Blanks.space : Blanks := ⟨[' '], List.all_eq_true.1 (by decide)⟩

namespace Text

/-- The codes of blanks: below that of the exclamation mark, or above those of ASCII. -/
theorem toNat_of_isBlank {c : Char} (h : isBlank c = true) : c.toNat ≤ 0x20 ∨ 0x85 ≤ c.toNat := by
  simp only [isBlank, blankRanges, List.any_cons, List.any_nil, Bool.or_false, Bool.or_eq_true,
    Bool.and_eq_true, decide_eq_true_eq] at h
  omega

/-- Only upper-case letters have another form in lower case. -/
theorem toLower_eq_self {c : Char} (h : c.toNat < 65 ∨ 90 < c.toNat) : c.toLower = c := by
  unfold Char.toLower
  rw [dif_neg]
  rintro ⟨hlow, hhigh⟩
  have hlow : 65 ≤ c.toNat := UInt32.le_iff_toNat_le.1 hlow
  have hhigh : c.toNat ≤ 90 := UInt32.le_iff_toNat_le.1 hhigh
  omega

theorem toList_toLower (s : String) : s.toLower.toList = s.toList.map Char.toLower := by
  show (s.map Char.toLower).toList = s.toList.map Char.toLower
  rw [String.toList_map]

/-- Blanks in front are dropped. -/
theorem trimStart_blanks (b : Blanks) (cs : List Char) : trimStart (b.chars ++ cs) = trimStart cs :=
  List.dropWhile_append_of_pos b.isBlank

theorem trimStart_of_not_isBlank {c : Char} (hc : isBlank c = false) (cs : List Char) :
    trimStart (c :: cs) = c :: cs :=
  List.dropWhile_cons_of_neg (by simp [hc])

/-- Blanks are trimmed to nothing. -/
theorem trim_blanks (b : Blanks) : trim b.chars = [] := by
  have hstart : trimStart b.chars = [] := by
    have hdrop := trimStart_blanks b []
    rwa [List.append_nil] at hdrop
  rw [trim, hstart]
  rfl

/-- A text with another character in it is not trimmed to nothing. -/
theorem trim_ne_nil_of_mem {c : Char} {cs : List Char} (hmem : c ∈ cs) (hc : isBlank c = false) :
    trim cs ≠ [] := by
  intro htrim
  have hblank : ∀ d ∈ trimStart cs, isBlank d = true := List.rdropWhile_eq_nil_iff.1 htrim
  rw [← List.takeWhile_append_dropWhile (p := isBlank) (l := cs), List.mem_append] at hmem
  rcases hmem with hstart | hrest
  · rw [List.mem_takeWhile_imp hstart] at hc
    cases hc
  · rw [hblank c hrest] at hc
    cases hc

/-- **Blanks on both sides of a text are trimmed**, if the text has none at its ends. -/
theorem trim_between (front back : Blanks) {cs : List Char} {first last : Char}
    (hhead : cs.head? = some first) (hfirst : isBlank first = false)
    (hend : cs.getLast? = some last) (hlast : isBlank last = false) :
    trim (front.chars ++ (cs ++ back.chars)) = cs := by
  obtain ⟨rest, rfl⟩ := List.head?_eq_some_iff.1 hhead
  obtain ⟨init, hinit⟩ := List.getLast?_eq_some_iff.1 hend
  have hback : dropEndWhile isBlank back.chars = [] :=
    List.rdropWhile_eq_nil_iff.2 back.isBlank
  rw [trim, trimStart_blanks, List.cons_append, trimStart_of_not_isBlank hfirst,
    ← List.cons_append, hinit, List.append_assoc, List.singleton_append,
    dropEndWhile_append_cons hlast, hback]

end Text

namespace Routine

open Script

/-! ### Texts that the scans pass over -/

/-- A text in front of the first part. -/
def addFront (text : List Char) : List (List Char) → List (List Char)
  | [] => [text]
  | part :: parts => (text ++ part) :: parts

theorem addFront_append (text text' : List Char) (parts : List (List Char)) :
    addFront (text ++ text') parts = addFront text (addFront text' parts) := by
  cases parts with
  | nil => rfl
  | cons part parts => rw [addFront, addFront, addFront, List.append_assoc]

/-- **A text outside quotes that the scans pass over.** The search for the closing bracket takes all
of it, and the search for commas leaves it in one part. -/
structure IsClosed (text : List Char) : Prop where
  argumentText : ∀ (routine : String) (rest : List Char),
    Source.argumentText routine false (text ++ rest) =
      (Source.argumentText routine false rest).map fun (arguments, rest) => (text ++ arguments, rest)
  splitArguments : ∀ rest : List Char,
    splitArguments false false (text ++ rest) = addFront text (splitArguments false false rest)

/-- A character goes to the part in front, unless it is a comma outside quotes. -/
theorem splitArguments_cons (quoted escaped : Bool) {c : Char} (cs : List Char)
    (hcomma : escaped = true ∨ quoted = true ∨ c ≠ ',') :
    splitArguments quoted escaped (c :: cs) =
      addFront [c] (splitArguments (quoted != (!escaped && decide (c = '"')))
        (!escaped && quoted && decide (c = '\\')) cs) := by
  rw [splitArguments]
  by_cases hquote : c = '"' <;> by_cases hback : c = '\\' <;> cases escaped <;> cases quoted <;>
    simp_all <;> split <;> simp_all [addFront]

theorem splitArguments_plain {c : Char} (hquote : c ≠ '"') (hcomma : c ≠ ',') (cs : List Char) :
    splitArguments false false (c :: cs) = addFront [c] (splitArguments false false cs) := by
  rw [splitArguments_cons false false cs (.inr (.inr hcomma)), decide_eq_false hquote]
  rfl

theorem splitArguments_quote (quoted : Bool) (cs : List Char) :
    splitArguments quoted false ('"' :: cs) = addFront ['"'] (splitArguments (!quoted) false cs) := by
  rw [splitArguments_cons quoted false cs (.inr (.inr (by decide)))]
  cases quoted <;> rfl

theorem splitArguments_inside {c : Char} (hquote : c ≠ '"') (hback : c ≠ '\\') (cs : List Char) :
    splitArguments true false (c :: cs) = addFront [c] (splitArguments true false cs) := by
  rw [splitArguments_cons true false cs (.inr (.inl rfl)), decide_eq_false hquote,
    decide_eq_false hback]
  rfl

theorem splitArguments_mark (c : Char) (cs : List Char) :
    splitArguments true false ('\\' :: c :: cs) =
      addFront ['\\', c] (splitArguments true false cs) := by
  have hmark := splitArguments_cons true false (c := '\\') (c :: cs) (.inr (.inl rfl))
  have hmarked := splitArguments_cons true true (c := c) cs (.inl rfl)
  exact hmark.trans ((congrArg (addFront ['\\']) hmarked).trans (addFront_append _ _ _).symm)

theorem splitArguments_ne_nil (cs : List Char) : splitArguments false false cs ≠ [] := by
  have hadd (c : Char) (parts : List (List Char)) : addFront [c] parts ≠ [] := by
    cases parts <;> exact List.cons_ne_nil _ _
  cases cs with
  | nil => exact List.cons_ne_nil _ _
  | cons c cs =>
    by_cases hcomma : c = ','
    · subst hcomma
      exact List.cons_ne_nil _ _
    · rw [splitArguments_cons false false cs (.inr (.inr hcomma))]
      exact hadd c _

/-- The search for the closing bracket takes a character, unless it is that bracket or marks the
next one. -/
theorem argumentText_cons (routine : String) (quoted : Bool) {c : Char} (cs : List Char)
    (hmark : quoted = false ∨ c ≠ '\\') (hbracket : quoted = true ∨ c ≠ ')') :
    Source.argumentText routine quoted (c :: cs) =
      (Source.argumentText routine (quoted != decide (c = '"')) cs).map fun (arguments, rest) =>
        (c :: arguments, rest) := by
  rw [Source.argumentText.eq_def]
  cases quoted <;> simp_all

theorem argumentText_mark (routine : String) (c : Char) (cs : List Char) :
    Source.argumentText routine true ('\\' :: c :: cs) =
      (Source.argumentText routine true cs).map fun (arguments, rest) =>
        ('\\' :: c :: arguments, rest) := rfl

theorem isClosed_nil : IsClosed [] where
  argumentText routine rest := by
    rw [List.nil_append]
    cases Source.argumentText routine false rest <;> rfl
  splitArguments rest := by
    rw [List.nil_append]
    cases hparts : Routine.splitArguments false false rest with
    | nil => exact absurd hparts (splitArguments_ne_nil rest)
    | cons part parts => rfl

theorem IsClosed.append {text text' : List Char} (h : IsClosed text) (h' : IsClosed text') :
    IsClosed (text ++ text') where
  argumentText routine rest := by
    rw [List.append_assoc, h.argumentText, h'.argumentText]
    cases Source.argumentText routine false rest with
    | error kind => rfl
    | ok result => simp only [Except.map, List.append_assoc]
  splitArguments rest := by
    rw [List.append_assoc, h.splitArguments, h'.splitArguments, addFront_append]

/-- A character without a meaning for the scans. -/
theorem isClosed_singleton {c : Char} (hquote : c ≠ '"') (hbracket : c ≠ ')') (hcomma : c ≠ ',') :
    IsClosed [c] where
  argumentText routine rest := by
    rw [List.singleton_append, argumentText_cons routine false rest (.inl rfl) (.inr hbracket),
      decide_eq_false hquote]
    rfl
  splitArguments rest := splitArguments_plain hquote hcomma rest

theorem isClosed_of_forall {text : List Char}
    (h : ∀ c ∈ text, c ≠ '"' ∧ c ≠ ')' ∧ c ≠ ',') : IsClosed text := by
  induction text with
  | nil => exact isClosed_nil
  | cons c text ih =>
    obtain ⟨hquote, hbracket, hcomma⟩ := h c List.mem_cons_self
    exact (isClosed_singleton hquote hbracket hcomma).append
      (ih fun d hd => h d (List.mem_cons_of_mem _ hd))

theorem isClosed_blanks (b : Blanks) : IsClosed b.chars :=
  isClosed_of_forall fun c hc => by
    have hcode := Text.toNat_of_isBlank (b.isBlank c hc)
    refine ⟨?_, ?_, ?_⟩ <;> rintro rfl <;> revert hcode <;> decide

/-! ### Strings in quotes -/

/-- A character of a string, marked by a backslash if it is a quote or a backslash. -/
def escapeChar (c : Char) : List Char := if c = '"' ∨ c = '\\' then ['\\', c] else [c]

/-- The characters of a string as they stand in quotes. -/
def escape (cs : List Char) : List Char := cs.flatMap escapeChar

theorem escape_cons (c : Char) (cs : List Char) : escape (c :: cs) = escapeChar c ++ escape cs :=
  List.flatMap_cons

/-- The search for the closing bracket passes over what stands in quotes, and over the closing
quote. -/
theorem argumentText_escape (routine : String) (cs rest : List Char) :
    Source.argumentText routine true (escape cs ++ '"' :: rest) =
      (Source.argumentText routine false rest).map fun (arguments, rest) =>
        (escape cs ++ '"' :: arguments, rest) := by
  induction cs with
  | nil => exact argumentText_cons routine true rest (.inr (by decide)) (.inl rfl)
  | cons c cs ih =>
    rw [escape_cons, escapeChar]
    split_ifs with hmarked
    · simp only [List.cons_append, List.nil_append]
      rw [argumentText_mark, ih]
      cases Source.argumentText routine false rest <;> rfl
    · obtain ⟨hquote, hback⟩ := not_or.1 hmarked
      simp only [List.cons_append, List.nil_append]
      rw [argumentText_cons routine true _ (.inr hback) (.inl rfl), decide_eq_false hquote,
        Bool.bne_false, ih]
      cases Source.argumentText routine false rest <;> rfl

/-- The search for commas passes over what stands in quotes, and over the closing quote. -/
theorem splitArguments_escape (cs rest : List Char) :
    splitArguments true false (escape cs ++ '"' :: rest) =
      addFront (escape cs ++ ['"']) (splitArguments false false rest) := by
  induction cs with
  | nil => exact splitArguments_quote true rest
  | cons c cs ih =>
    rw [escape_cons, escapeChar]
    split_ifs with hmarked
    · simp only [List.cons_append, List.nil_append]
      rw [splitArguments_mark, ih, ← addFront_append]
      rfl
    · obtain ⟨hquote, hback⟩ := not_or.1 hmarked
      simp only [List.cons_append, List.nil_append]
      rw [splitArguments_inside hquote hback, ih, ← addFront_append]
      rfl

/-- **A string in quotes is closed**, whatever characters it holds. -/
theorem isClosed_quoted (cs : List Char) : IsClosed ('"' :: (escape cs ++ ['"'])) where
  argumentText routine rest := by
    rw [List.cons_append, List.append_assoc, List.singleton_append,
      argumentText_cons routine false _ (.inl rfl) (.inr (by decide))]
    simp only [decide_true, Bool.false_bne]
    rw [argumentText_escape]
    cases Source.argumentText routine false rest with
    | error kind => rfl
    | ok result => simp [Except.map]
  splitArguments rest := by
    rw [List.cons_append, List.append_assoc, List.singleton_append, splitArguments_quote,
      Bool.not_false, splitArguments_escape, ← addFront_append]
    rfl

/-- A string in quotes is read without the marks. -/
theorem unescape?_escape (cs : List Char) : Value.unescape? (escape cs) = some cs := by
  induction cs with
  | nil => rfl
  | cons c cs ih =>
    rw [escape_cons, escapeChar]
    split_ifs with hmarked
    · exact congrArg (Option.map (c :: ·)) ih
    · obtain ⟨-, hback⟩ := not_or.1 hmarked
      rw [List.singleton_append, Value.unescape?.eq_def]
      simp only [hback, if_false, ih]
      rfl

/-! ### Values -/

namespace Value

/-- A value as it is written in a call. -/
def text : Value → List Char
  | string s => '"' :: (escape s.toList ++ ['"'])
  | int n => (Numeral.integer n).toList
  | bool true => ['t', 'r', 'u', 'e']
  | bool false => ['f', 'a', 'l', 's', 'e']

/-- Whether a value can be written: an integer takes no more than 63 bits. -/
def IsWritable : Value → Prop
  | int n => n.natAbs < 0x8000000000000000
  | _ => True

/-- What is not a string is written in letters and digits, behind a minus sign if it is negative. -/
theorem text_cases (v : Value) :
    (∃ s, v = string s) ∨ (v.text ≠ [] ∧ ∀ c ∈ v.text, c.isAlphanum = true) ∨
      ∃ cs, v.text = '-' :: cs ∧ ∀ c ∈ cs, c.isAlphanum = true := by
  cases v with
  | string s => exact .inl ⟨s, rfl⟩
  | bool b =>
    refine .inr (.inl ?_)
    cases b with
    | false => exact ⟨by decide, List.all_eq_true.1 (by decide)⟩
    | true => exact ⟨by decide, List.all_eq_true.1 (by decide)⟩
  | int n =>
    have hdigits : ∀ c ∈ (Numeral.decimal n.natAbs).toList, c.isAlphanum = true :=
      fun c hc => Numeral.isAlphanum_of_mem_decimal hc
    have hne : (Numeral.decimal n.natAbs).toList ≠ [] := by
      rw [Numeral.toList_decimal]
      exact Nat.toDigits_ne_nil
    right
    rw [text, Numeral.toList_integer]
    split_ifs with hneg
    · exact .inr ⟨_, rfl, hdigits⟩
    · exact .inl ⟨hne, hdigits⟩

/-- Letters and digits have no meaning for the scans. -/
theorem isClosed_of_isAlphanum {cs : List Char} (h : ∀ c ∈ cs, c.isAlphanum = true) :
    IsClosed cs :=
  isClosed_of_forall fun c hc => by
    have halphanum := h c hc
    refine ⟨?_, ?_, ?_⟩ <;> rintro rfl <;> revert halphanum <;> decide

theorem isClosed_text (v : Value) : IsClosed v.text := by
  rcases v.text_cases with ⟨s, rfl⟩ | ⟨-, halphanum⟩ | ⟨cs, htext, halphanum⟩
  · exact isClosed_quoted s.toList
  · exact isClosed_of_isAlphanum halphanum
  · rw [htext]
    exact (isClosed_singleton (by decide) (by decide) (by decide)).append
      (isClosed_of_isAlphanum halphanum)

/-- The text of a value has no blanks at its ends. -/
theorem text_ends (v : Value) :
    (∃ c, v.text.head? = some c ∧ Text.isBlank c = false) ∧
      ∃ c, v.text.getLast? = some c ∧ Text.isBlank c = false := by
  have hends {cs : List Char} (hne : cs ≠ []) (h : ∀ c ∈ cs, Text.isBlank c = false) :
      (∃ c, cs.head? = some c ∧ Text.isBlank c = false) ∧
        ∃ c, cs.getLast? = some c ∧ Text.isBlank c = false :=
    ⟨⟨_, List.head?_eq_some_head hne, h _ (List.head_mem hne)⟩,
      ⟨_, List.getLast?_eq_some_getLast hne, h _ (List.getLast_mem hne)⟩⟩
  rcases v.text_cases with ⟨s, rfl⟩ | ⟨hne, halphanum⟩ | ⟨cs, htext, halphanum⟩
  · refine ⟨⟨'"', rfl, by decide⟩, '"', ?_, by decide⟩
    rw [text, ← List.cons_append, List.getLast?_concat]
  · exact hends hne fun c hc => Text.isBlank_of_isAlphanum (halphanum c hc)
  · rw [htext]
    refine hends (List.cons_ne_nil _ _) fun c hc => ?_
    rcases List.mem_cons.1 hc with rfl | hc
    · decide
    · exact Text.isBlank_of_isAlphanum (halphanum c hc)

/-- A value does not look like an argument with a name. -/
theorem splitName?_text (v : Value) : splitName? v.text = none := by
  have hfirst {c : Char} (hc : Source.isWord c = false) (cs : List Char) :
      splitName? (c :: cs) = none := by
    rw [splitName?, List.takeWhile_cons_of_neg (by simp [hc])]
  rcases v.text_cases with ⟨s, rfl⟩ | ⟨-, halphanum⟩ | ⟨cs, htext, -⟩
  · exact hfirst (by decide) _
  · have hword : v.text.takeWhile Source.isWord = v.text :=
      List.takeWhile_eq_self_iff.2 fun c hc => by simp [Source.isWord, halphanum c hc]
    rw [splitName?, hword, List.drop_length]
    split <;> simp_all [Text.trimStart]
  · rw [htext]
    exact hfirst (by decide) cs

/-- A text that begins with a digit or a minus sign is not a truth value. -/
theorem toLower_ne {c : Char} (hc : c = '-' ∨ c.isDigit = true) (cs : List Char) :
    (String.ofList (c :: cs)).toLower ≠ "true" ∧ (String.ofList (c :: cs)).toLower ≠ "false" := by
  have hcode : c.toNat ≤ 57 := by
    rcases hc with rfl | hdigit
    · decide
    · simp only [Char.isDigit, Bool.and_eq_true, decide_eq_true_eq] at hdigit
      exact UInt32.le_iff_toNat_le.1 hdigit.2
  have hlower : c.toLower = c := Text.toLower_eq_self (.inl (by omega))
  have hhead {s : String} (h : (String.ofList (c :: cs)).toLower = s) : s.toList.head? = some c := by
    rw [← h, Text.toList_toLower, String.toList_ofList, List.map_cons, List.head?_cons, hlower]
  refine ⟨fun h => ?_, fun h => ?_⟩
  · rw [← Option.some.inj (hhead h)] at hcode
    exact absurd hcode (by decide)
  · rw [← Option.some.inj (hhead h)] at hcode
    exact absurd hcode (by decide)

/-- **A value that is written is read back.** -/
theorem read?_text {v : Value} (h : v.IsWritable) : read? v.text = some v := by
  cases v with
  | string s =>
    have hlast : (escape s.toList ++ ['"']).getLast? = some '"' := List.getLast?_concat
    rw [text, read?, readQuoted?, hlast]
    simp only [List.dropLast_concat, unescape?_escape, Option.map_some, String.ofList_toList]
  | bool b =>
    have htrue : (String.ofList ['t', 'r', 'u', 'e']).toLower = "true" := by decide +kernel
    have hfalse : (String.ofList ['f', 'a', 'l', 's', 'e']).toLower = "false" := by decide +kernel
    cases b with
    | true =>
      rw [text, read?, htrue]
      · rfl
      · exact fun rest heq => absurd heq (by simp)
    | false =>
      rw [text, read?, hfalse]
      · rfl
      · exact fun rest heq => absurd heq (by simp)
  | int n =>
    have hread := Numeral.readNumber?_integer h
    have hfirst : ∃ c cs, (Numeral.integer n).toList = c :: cs ∧ (c = '-' ∨ c.isDigit = true) := by
      rw [Numeral.toList_integer]
      split_ifs with hneg
      · exact ⟨_, _, rfl, .inl rfl⟩
      · obtain ⟨c, cs, hcs⟩ := List.exists_cons_of_ne_nil
          (show (Numeral.decimal n.natAbs).toList ≠ [] from by
            rw [Numeral.toList_decimal]
            exact Nat.toDigits_ne_nil)
        exact ⟨c, cs, hcs, .inr (Numeral.isDigit_of_mem_decimal (hcs ▸ List.mem_cons_self))⟩
    obtain ⟨c, cs, hcs, hc⟩ := hfirst
    obtain ⟨htrue, hfalse⟩ := toLower_ne hc cs
    rw [text]
    rw [hcs] at hread ⊢
    rw [read?]
    · split
      · exact absurd ‹_› htrue
      · exact absurd ‹_› hfalse
      · rw [hread]
        rfl
    · rintro rest heq
      obtain ⟨rfl, -⟩ := List.cons.inj heq
      revert hc
      decide

end Value

/-! ### Arguments -/

/-- Whether a character may stand in the name of an argument: a lower-case letter, a digit or an
underscore. -/
def isNameChar (c : Char) : Bool := c.isLower || c.isDigit || c = '_'

/-- The name of an argument with the equals sign behind it, and blanks around that. -/
structure Label where
  name : String
  ne_nil : name.toList ≠ []
  isNameChar : ∀ c ∈ name.toList, isNameChar c = true
  beforeSign : Blanks
  afterSign : Blanks

/-- An argument as it is written, with blanks around it. -/
structure WrittenArgument where
  front : Blanks
  label? : Option Label
  value : Value
  isWritable : value.IsWritable
  back : Blanks

/-- A call as it is written. Without arguments there may be blanks in the brackets. -/
structure WrittenCall where
  name : String
  isWord : ∀ c ∈ name.toList, Source.isWord c = true
  inside : Blanks
  arguments : List WrittenArgument

namespace Label

def text (l : Label) : List Char :=
  l.name.toList ++ (l.beforeSign.chars ++ ('=' :: l.afterSign.chars))

theorem isWord (l : Label) : ∀ c ∈ l.name.toList, Source.isWord c = true := by
  intro c hc
  have hname := l.isNameChar c hc
  simp only [Routine.isNameChar, Bool.or_eq_true, decide_eq_true_eq] at hname
  rcases hname with (hlower | hdigit) | rfl
  · have halpha : c.isAlpha = (c.isUpper || c.isLower) := rfl
    simp [Source.isWord, Char.isAlphanum, halpha, hlower]
  · simp [Source.isWord, Char.isAlphanum, hdigit]
  · decide

/-- Names are kept as they are written. -/
theorem toLower_name (l : Label) : (String.ofList l.name.toList).toLower = l.name := by
  have hlower : ∀ c ∈ l.name.toList, c.toLower = c := by
    intro c hc
    have hname := l.isNameChar c hc
    simp only [Routine.isNameChar, Bool.or_eq_true, decide_eq_true_eq, Numeral.isLower_iff,
      Char.isDigit, Bool.and_eq_true, ge_iff_le, UInt32.le_iff_toNat_le] at hname
    change (97 ≤ c.toNat ∧ c.toNat ≤ 122 ∨ 48 ≤ c.toNat ∧ c.toNat ≤ 57) ∨ c = '_' at hname
    rcases hname with hcode | rfl
    · exact Text.toLower_eq_self (by omega)
    · decide
  rw [← String.toList_inj, Text.toList_toLower, String.toList_ofList, List.map_congr_left hlower,
    List.map_id']

end Label

namespace WrittenArgument

variable (w : WrittenArgument)

/-- The name with its equals sign, if there is one, and the value. -/
def core : List Char :=
  match w.label? with
  | some l => l.text ++ w.value.text
  | none => w.value.text

def text : List Char := w.front.chars ++ (w.core ++ w.back.chars)

/-- The value, if the argument has no name. -/
def positional? : Option Value := if w.label?.isSome then none else some w.value

/-- The name and the value, if the argument has a name. -/
def named? : Option (String × Value) := w.label?.map fun l => (l.name, w.value)

theorem isClosed_text : IsClosed w.text := by
  have hword {cs : List Char} (h : ∀ c ∈ cs, Source.isWord c = true) : IsClosed cs :=
    isClosed_of_forall fun c hc => by
      have hc := h c hc
      refine ⟨?_, ?_, ?_⟩ <;> rintro rfl <;> revert hc <;> decide
  have hcore : IsClosed w.core := by
    unfold core
    split
    · rename_i l _
      have hsign : IsClosed ['='] := isClosed_singleton (by decide) (by decide) (by decide)
      exact ((hword l.isWord).append ((isClosed_blanks l.beforeSign).append
        (hsign.append (isClosed_blanks l.afterSign)))).append w.value.isClosed_text
    · exact w.value.isClosed_text
  exact (isClosed_blanks w.front).append (hcore.append (isClosed_blanks w.back))

/-- Blanks around an argument are trimmed. -/
theorem trim_text : Text.trim w.text = w.core := by
  obtain ⟨⟨first, hhead, hfirst⟩, last, hend, hlast⟩ := w.value.text_ends
  have hne : w.value.text ≠ [] := by
    intro hnil
    rw [hnil] at hhead
    cases hhead
  have hcore : (∃ c, w.core.head? = some c ∧ Text.isBlank c = false) ∧
      w.core.getLast? = some last := by
    unfold core
    split
    · rename_i l _
      obtain ⟨c, cs, hcs⟩ := List.exists_cons_of_ne_nil l.ne_nil
      have hword := l.isWord c (by rw [hcs]; exact List.mem_cons_self)
      refine ⟨⟨c, by rw [Label.text, hcs]; rfl, ?_⟩, ?_⟩
      · rw [Source.isWord, Bool.or_eq_true, decide_eq_true_eq] at hword
        rcases hword with halphanum | rfl
        · exact Text.isBlank_of_isAlphanum halphanum
        · decide
      · rw [List.getLast?_append_of_ne_nil _ hne, hend]
    · exact ⟨⟨first, hhead, hfirst⟩, hend⟩
  obtain ⟨⟨c, hc, hblank⟩, hlast'⟩ := hcore
  exact Text.trim_between w.front w.back hc hblank hlast' hlast

/-- An argument with a name is told apart from its value. -/
theorem splitName?_label (l : Label) (v : Value) :
    splitName? (l.text ++ v.text) = some (l.name, v.text) := by
  obtain ⟨⟨first, hhead, hfirst⟩, last, hend, hlast⟩ := v.text_ends
  have hbehind : (l.beforeSign.chars ++ '=' :: (l.afterSign.chars ++ v.text)).takeWhile
      Source.isWord = [] := by
    cases hb : l.beforeSign.chars with
    | nil => rfl
    | cons b bs =>
      have hblank := l.beforeSign.isBlank b (by rw [hb]; exact List.mem_cons_self)
      have hcode := Text.toNat_of_isBlank hblank
      rw [List.cons_append, List.takeWhile_cons_of_neg]
      intro hword
      rw [Source.isWord, Bool.or_eq_true, decide_eq_true_eq] at hword
      rcases hword with halphanum | rfl
      · have := Text.toNat_of_isAlphanum halphanum
        omega
      · revert hcode
        decide
  have htext : l.text ++ v.text =
      l.name.toList ++ (l.beforeSign.chars ++ '=' :: (l.afterSign.chars ++ v.text)) := by
    simp only [Label.text, List.append_assoc, List.cons_append]
  have hname : (l.text ++ v.text).takeWhile Source.isWord = l.name.toList := by
    rw [htext, List.takeWhile_append_of_pos l.isWord, hbehind, List.append_nil]
  have hrest : Text.trimStart ((l.text ++ v.text).drop l.name.toList.length) =
      '=' :: (l.afterSign.chars ++ v.text) := by
    rw [htext, List.drop_left, Text.trimStart_blanks, Text.trimStart_of_not_isBlank (by decide)]
  have hvalue : Text.trim (l.afterSign.chars ++ v.text) = v.text := by
    have htrim := Text.trim_between l.afterSign ⟨[], by simp⟩ hhead hfirst hend hlast
    rwa [List.append_nil] at htrim
  obtain ⟨c, cs, hcs⟩ := List.exists_cons_of_ne_nil l.ne_nil
  have hlower := l.toLower_name
  rw [splitName?, hname, hrest]
  rw [hcs] at hlower ⊢
  simp only [hvalue, hlower]

/-- **An argument that is written is added as what it stands for.** -/
theorem add_text (a : Arguments) :
    a.add (Text.trim w.text) = .ok
      { a with
        positional := a.positional ++ w.positional?.toList
        named := a.named ++ w.named?.toList } := by
  have hread := Value.read?_text w.isWritable
  rw [trim_text, core, positional?, named?]
  split
  · rename_i l hl
    rw [Arguments.add, splitName?_label]
    simp [hread, hl]
  · rename_i hnone
    rw [Arguments.add, w.value.splitName?_text]
    simp [hread, hnone]

end WrittenArgument

/-! ### Calls -/

/-- Parts that are closed are found again between commas. -/
theorem splitArguments_intercalate {part : List Char} {parts : List (List Char)}
    (h : ∀ p ∈ part :: parts, IsClosed p) :
    splitArguments false false (List.intercalate [','] (part :: parts)) = part :: parts := by
  induction parts generalizing part with
  | nil =>
    have hlast := (h part List.mem_cons_self).splitArguments []
    rw [List.append_nil] at hlast
    rw [List.intercalate_singleton, hlast]
    simp [splitArguments, addFront]
  | cons next parts ih =>
    have hcomma (cs : List Char) :
        splitArguments false false (',' :: cs) = [] :: splitArguments false false cs := rfl
    rw [List.intercalate_cons_cons, List.append_assoc,
      (h part List.mem_cons_self).splitArguments, List.singleton_append, hcomma,
      ih fun p hp => h p (List.mem_cons_of_mem _ hp)]
    simp [addFront]

/-- The closing bracket is found behind parts that are closed, with commas between them. -/
theorem argumentText_intercalate (routine : String) (rest : List Char) {parts : List (List Char)}
    (h : ∀ p ∈ parts, IsClosed p) :
    Source.argumentText routine false (List.intercalate [','] parts ++ ')' :: rest) =
      .ok (List.intercalate [','] parts, rest) := by
  have hbracket : Source.argumentText routine false (')' :: rest) = .ok ([], rest) := by
    rw [Source.argumentText.eq_def]
    simp
  induction parts with
  | nil => exact hbracket
  | cons part parts ih =>
    have hpart := (h part List.mem_cons_self).argumentText routine
    cases parts with
    | nil =>
      rw [List.intercalate_singleton, hpart, hbracket]
      simp [Except.map]
    | cons next parts =>
      have hcomma (cs : List Char) := argumentText_cons routine false (c := ',') cs (.inl rfl)
        (.inr (by decide))
      rw [List.intercalate_cons_cons, List.append_assoc, List.append_assoc, hpart,
        List.singleton_append, hcomma]
      simp only [show ¬(',' : Char) = '"' by decide, decide_false, Bool.bne_false,
        ih fun p hp => h p (List.mem_cons_of_mem _ hp)]
      rw [List.append_assoc]
      rfl

namespace WrittenCall

variable (w : WrittenCall)

/-- What stands between the brackets. -/
def argumentText : List Char :=
  if w.arguments.isEmpty then w.inside.chars
  else List.intercalate [','] (w.arguments.map WrittenArgument.text)

/-- The call, behind the tag of the construct. -/
def text : List Char := w.name.toList ++ '(' :: (w.argumentText ++ [')'])

/-- **The closing bracket of a call is found**, and what stands between the brackets is taken as it
is. -/
theorem call_text (rest : List Char) :
    Source.call (w.text ++ rest) = .ok (w.name, String.ofList w.argumentText, rest) := by
  have hindent (c : Char) (cs : List Char) (hc : Source.isIndent c = false) :
      Source.skipIndent (c :: cs) = c :: cs := List.dropWhile_cons_of_neg (by simp [hc])
  have htext : w.text ++ rest = w.name.toList ++ '(' :: (w.argumentText ++ ')' :: rest) := by
    simp only [text, List.append_assoc, List.cons_append, List.nil_append]
  have hskip : Source.skipIndent (w.text ++ rest) = w.text ++ rest := by
    rw [htext]
    cases hname : w.name.toList with
    | nil => exact hindent '(' _ (by decide)
    | cons c cs =>
      have hword := w.isWord c (by rw [hname]; exact List.mem_cons_self)
      refine hindent c _ (Bool.eq_false_iff.2 fun hblank => ?_)
      simp only [Source.isIndent, Bool.or_eq_true, decide_eq_true_eq] at hblank
      rcases hblank with rfl | rfl <;> revert hword <;> decide
  have hbehind (cs : List Char) :
      ('(' :: cs).takeWhile Source.isWord = [] ∧ ('(' :: cs).dropWhile Source.isWord = '(' :: cs :=
    ⟨List.takeWhile_cons_of_neg (by decide), List.dropWhile_cons_of_neg (by decide)⟩
  have harguments : Source.argumentText w.name false (w.argumentText ++ ')' :: rest) =
      .ok (w.argumentText, rest) := by
    unfold argumentText
    split_ifs with hempty
    · have hblanks : ∀ p ∈ [w.inside.chars], IsClosed p := by simpa using isClosed_blanks w.inside
      have hclose := argumentText_intercalate w.name rest hblanks
      rwa [List.intercalate_singleton] at hclose
    · refine argumentText_intercalate w.name rest fun p hp => ?_
      obtain ⟨a, -, rfl⟩ := List.mem_map.1 hp
      exact a.isClosed_text
  rw [Source.call, hskip, htext, List.takeWhile_append_of_pos w.isWord, (hbehind _).1,
    List.append_nil, String.ofList_toList, List.dropWhile_append_of_pos w.isWord, (hbehind _).2,
    hindent '(' _ (by decide)]
  change (Source.argumentText w.name false (w.argumentText ++ ')' :: rest) >>= _) = _
  rw [harguments]
  rfl

/-- **The arguments of a call are read as what they stand for**, in order. -/
theorem read_argumentText :
    Arguments.read w.name (String.ofList w.argumentText) = .ok
      ⟨w.name, w.arguments.filterMap WrittenArgument.positional?,
        w.arguments.filterMap WrittenArgument.named?⟩ := by
  have hadd (arguments : List WrittenArgument) (a : Arguments) :
      (arguments.map WrittenArgument.text).foldlM (fun a part => a.add (Text.trim part)) a = .ok
        { a with
          positional := a.positional ++ arguments.filterMap WrittenArgument.positional?
          named := a.named ++ arguments.filterMap WrittenArgument.named? } := by
    induction arguments generalizing a with
    | nil => simp [pure, Except.pure]
    | cons w arguments ih =>
      rw [List.map_cons, List.foldlM_cons, w.add_text]
      refine (ih _).trans ?_
      cases hp : w.positional? <;> cases hn : w.named? <;> simp [hp, hn]
  rw [Arguments.read, String.toList_ofList]
  cases hw : w.arguments with
  | nil =>
    have hempty : w.argumentText = w.inside.chars := by
      rw [argumentText, hw]
      rfl
    rw [hempty, if_pos (Text.trim_blanks w.inside)]
    rfl
  | cons a arguments =>
    have hsplit : splitArguments false false w.argumentText =
        (a :: arguments).map WrittenArgument.text := by
      rw [argumentText, hw]
      refine splitArguments_intercalate fun p hp => ?_
      rw [← List.map_cons] at hp
      obtain ⟨b, -, rfl⟩ := List.mem_map.1 hp
      exact b.isClosed_text
    have htrim : Text.trim w.argumentText ≠ [] := by
      obtain ⟨⟨c, hhead, hc⟩, -⟩ := a.value.text_ends
      obtain ⟨cs, hcs⟩ := List.head?_eq_some_iff.1 hhead
      refine Text.trim_ne_nil_of_mem (c := c) ?_ hc
      have hmem : c ∈ a.text := by
        have hcore : c ∈ a.core := by
          unfold WrittenArgument.core
          split <;> simp [hcs]
        simp [WrittenArgument.text, hcore]
      rw [argumentText, hw]
      cases arguments with
      | nil => simpa using hmem
      | cons b arguments => simp [List.intercalate_cons_cons, hmem]
    rw [if_neg htrim, hsplit, hadd]
    rfl

end WrittenCall

/-- **A call is read as it was written.** Whatever strings, integers and truth values its arguments
are, with names or without, and whatever blanks stand around them: exactly the call is taken from
the script, and the routine gets a text from which its arguments are read in order. -/
theorem call_readsBack (w : WrittenCall) (rest : List Char) :
    ∃ arguments : String,
      Source.call (w.text ++ rest) = .ok (w.name, arguments, rest) ∧
      Arguments.read w.name arguments = .ok
        ⟨w.name, w.arguments.filterMap WrittenArgument.positional?,
          w.arguments.filterMap WrittenArgument.named?⟩ ∧
      ∀ (setting : Setting) (running : Running),
        Script.call setting running (w.text ++ rest) = (do
          match ← Routine.call setting w.name arguments with
          | some truth => return (running.fold truth, rest)
          | none => return (running, rest)) := by
  have hcall := w.call_text rest
  refine ⟨_, hcall, w.read_argumentText, fun setting running => ?_⟩
  rw [Script.call, hcall, ofExcept_ok]
  rfl

example : (⟨"Mark", List.all_eq_true.1 (by decide), .none,
    [⟨.none, none, .string "a\")", trivial, .space⟩,
      ⟨.space, some ⟨"size", by decide, List.all_eq_true.1 (by decide), .none, .none⟩, .int (-3),
        by simp [Value.IsWritable], .none⟩]⟩ : WrittenCall).text =
    "Mark(\"a\\\")\" , size=-3)".toList := by decide

end Routine
end Disassembly
