/-
# What the built-in pattern programs find

The built-in pattern programs look for calls of ROM routines: each has one or more signatures, three
bytes with a comment for them. A call of the search routine is read as its signature
(`call_signature`), so the test of a program tells whether one of its signatures stands at the
address, and has put the comments on those that do (`ends_signatures`). No signature of a program
stands at the same address as another, and none right behind the first byte of another. So there is
one comment at each address that is found, and the number of these addresses is below the size of
the address space (`runPattern_search`).
-/

import Disassembly.Preset
import Disassembly.Proofs.Image.Window
import Disassembly.Proofs.Routine.WrittenCall
import Disassembly.Proofs.Script.Ending

namespace Disassembly

namespace Image

instance decidableHolds (image : Image) :
    (address : Nat) → (bytes : List UInt8) → Decidable (image.Holds address bytes)
  | _, [] => .isTrue trivial
  | address, b :: bs =>
    have := decidableHolds image (address + 1) bs
    inferInstanceAs (Decidable (image.byte? address = some b ∧ image.Holds (address + 1) bs))

/-- Of two runs of bytes of one length at an address there is only one. -/
theorem Holds.eq {image : Image} {address : Nat} {bs bs' : List UInt8} (h : image.Holds address bs)
    (h' : image.Holds address bs') (hlength : bs.length = bs'.length) : bs = bs' := by
  induction bs generalizing address bs' with
  | nil => exact (List.length_eq_zero_iff.1 hlength.symm).symm
  | cons b bs ih =>
    obtain ⟨b', bs', rfl⟩ := List.exists_cons_of_length_eq_add_one hlength.symm
    obtain rfl : b = b' := Option.some.inj (h.1.symm.trans h'.1)
    rw [ih h.2 h'.2 (Nat.succ.inj hlength)]

end Image

/-- Three bytes that a search looks for, and the comment on them. -/
structure Signature where
  bytes : List UInt8
  text : String
  length_bytes : bytes.length = 3

namespace Signature

/-- The comment on the bytes at an address. -/
def comment (s : Signature) (address : UInt16) : Directive :=
  ⟨address, address + 2, .comment .endOfLine s.text⟩

/-- Whether the image has the bytes of one of the signatures from an address on. -/
def IsAt (image : Image) (signatures : List Signature) (address : Nat) : Prop :=
  ∃ s ∈ signatures, image.Holds address s.bytes

instance (image : Image) (signatures : List Signature) :
    DecidablePred (IsAt image signatures) := fun address =>
  inferInstanceAs (Decidable (∃ s ∈ signatures, image.Holds address s.bytes))

theorem isAt_cons {image : Image} {s : Signature} {signatures : List Signature} {address : Nat} :
    IsAt image (s :: signatures) address ↔
      image.Holds address s.bytes ∨ IsAt image signatures address := by
  simp [IsAt]

/-- **What a search of the addresses from `first` to `last` finds**: in ascending order one comment
at each address where one of the signatures stands, and it is the comment on that signature. -/
structure Finds (image : Image) (signatures : List Signature) (first last : Nat)
    (comments : List Directive) : Prop where
  addresses : comments.map (·.first.toNat) =
    (List.range' first (last + 1 - first)).filter fun a => IsAt image signatures a
  comment : ∀ d ∈ comments, ∃ s ∈ signatures,
    image.Holds d.first.toNat s.bytes ∧ d = s.comment d.first

/-- **Signatures that do not get in each other's way**: there are some, all of them differ, and none
can stand right behind the first byte of another, or of itself. -/
structure Apart (signatures : List Signature) : Prop where
  ne_nil : signatures ≠ []
  distinct : signatures.Pairwise fun s t => s.bytes ≠ t.bytes
  following : ∀ s ∈ signatures, ∀ t ∈ signatures, s.bytes[1]? ≠ t.bytes[0]?

/-! ### Signatures at an address -/

section Found

variable (image : Image) (signatures : List Signature) (address : Nat)

/-- The comments on the signatures at an address. -/
def comments : List Directive :=
  (signatures.filter fun s => image.Holds address s.bytes).map (·.comment (UInt16.ofNat address))

variable {image signatures address}

/-- None of the signatures stands at an address, or one of them does. -/
theorem Apart.filter_cases (h : Apart signatures) (image : Image) (address : Nat) :
    (signatures.filter fun s => image.Holds address s.bytes) = [] ∧ ¬IsAt image signatures address ∨
      ∃ s, (signatures.filter fun s => image.Holds address s.bytes) = [s] ∧
        IsAt image signatures address := by
  have hdistinct := h.distinct.filter fun s => image.Holds address s.bytes
  have hmem (s : Signature) : s ∈ signatures.filter (fun s => image.Holds address s.bytes) ↔
      s ∈ signatures ∧ image.Holds address s.bytes := by
    rw [List.mem_filter, decide_eq_true_eq]
  generalize (signatures.filter fun s => image.Holds address s.bytes) = found at hdistinct hmem
  rcases found with _ | ⟨s, _ | ⟨t, rest⟩⟩
  · left
    refine ⟨rfl, ?_⟩
    rintro ⟨s, hs⟩
    exact List.not_mem_nil ((hmem s).2 hs)
  · right
    exact ⟨s, rfl, s, (hmem s).1 List.mem_cons_self⟩
  · have hs := ((hmem s).1 List.mem_cons_self).2
    have ht := ((hmem t).1 (List.mem_cons_of_mem s List.mem_cons_self)).2
    have hne := List.rel_of_pairwise_cons hdistinct List.mem_cons_self
    exact absurd (hs.eq ht (s.length_bytes.trans t.length_bytes.symm)) hne

/-- The comments at an address tell whether one of the signatures stands there. -/
theorem Apart.map_comments (h : Apart signatures) (haddress : address < 0x10000) :
    (comments image signatures address).map (·.first.toNat) =
      if IsAt image signatures address then [address] else [] := by
  have hword : (UInt16.ofNat address).toNat = address := by
    rw [UInt16.toNat_ofNat', Nat.mod_eq_of_lt haddress]
  rw [comments, List.map_map]
  rcases h.filter_cases image address with ⟨hnone, hnot⟩ | ⟨s, hone, hat⟩
  · rw [hnone, if_neg hnot]
    rfl
  · rw [hone, if_pos hat]
    show [(UInt16.ofNat address).toNat] = [address]
    rw [hword]

/-- What is found at two addresses that follow each other is found at one of them only. -/
theorem Apart.not_isAt_succ (h : Apart signatures) (hat : IsAt image signatures address) :
    ¬IsAt image signatures (address + 1) := by
  obtain ⟨s, hs, hholds⟩ := hat
  rintro ⟨t, ht, hholds'⟩
  obtain ⟨b₀, b₁, b₂, hbytes⟩ := List.length_eq_three.1 s.length_bytes
  obtain ⟨b₀', b₁', b₂', hbytes'⟩ := List.length_eq_three.1 t.length_bytes
  have hne := h.following s hs t ht
  rw [hbytes] at hholds hne
  rw [hbytes'] at hholds' hne
  exact hne (hholds.2.1.symm.trans hholds'.1)

/-- **What a search collects address by address is what it finds.** -/
theorem Apart.finds (h : Apart signatures) {first last : Nat} (hlast : last < 0x10000) :
    Finds image signatures first last
      ((List.range' first (last + 1 - first)).flatMap (comments image signatures)) where
  addresses := by
    have hmem : ∀ a ∈ List.range' first (last + 1 - first), a < 0x10000 := by
      intro a ha
      rw [List.mem_range'_1] at ha
      omega
    rw [List.map_flatMap]
    generalize List.range' first (last + 1 - first) = addresses at hmem
    induction addresses with
    | nil => rfl
    | cons a as ih =>
      rw [List.flatMap_cons, h.map_comments (hmem a List.mem_cons_self),
        ih fun b hb => hmem b (List.mem_cons_of_mem _ hb), List.filter_cons]
      split <;> simp_all
  comment := by
    intro d hd
    obtain ⟨a, ha, hd⟩ := List.mem_flatMap.1 hd
    obtain ⟨s, hs, rfl⟩ := List.mem_map.1 hd
    rw [List.mem_filter, decide_eq_true_eq] at hs
    rw [List.mem_range'_1] at ha
    have haddress : (UInt16.ofNat a).toNat = a := by
      rw [UInt16.toNat_ofNat']
      omega
    refine ⟨s, hs.1, ?_, rfl⟩
    show image.Holds (UInt16.ofNat a).toNat s.bytes
    rw [haddress]
    exact hs.2

/-- Fewer addresses are found than there are in the address space. -/
theorem Apart.countP_lt (h : Apart signatures) {first last : Nat} (hlast : last < 0x10000) :
    (List.range' first (last + 1 - first)).countP (fun a => IsAt image signatures a) < 0x10000 := by
  have hle := List.countP_le_length (p := fun a => decide (IsAt image signatures a))
    (l := List.range' first (last + 1 - first))
  rw [List.length_range'] at hle
  rcases Nat.lt_or_ge (last + 1 - first) 0x10000 with hlt | hge
  · omega
  · -- All addresses are tried, and the first two are not both found.
    obtain ⟨rfl, rfl⟩ : first = 0 ∧ last = 0xFFFF := by omega
    have hrest := List.countP_le_length (p := fun a => decide (IsAt image signatures a))
      (l := List.range' (0 + 1 + 1) 0xFFFE)
    rw [List.length_range'] at hrest
    rw [show 0xFFFF + 1 - 0 = 0xFFFE + 1 + 1 by omega, List.range'_succ, List.range'_succ,
      List.countP_cons, List.countP_cons]
    have hboth : ¬(IsAt image signatures 0 ∧ IsAt image signatures 1) :=
      fun ⟨hat, hnext⟩ => h.not_isAt_succ hat hnext
    simp only [decide_eq_true_eq]
    split_ifs with hnext hat
    · exact absurd ⟨hat, hnext⟩ hboth
    all_goals omega

end Found

/-! ### Calls of the search routine -/

/-- The digits of a byte. -/
def digits (b : UInt8) : List Char := Numeral.fixedDigits 16 2 b.toNat

/-- The bytes as a pattern: two hexadecimal digits each, with blanks between them. -/
def pattern (s : Signature) : String :=
  String.ofList (List.intercalate [' '] (s.bytes.map digits))

/-- The call that looks for the signature, as it is written. -/
def call (s : Signature) : Routine.WrittenCall where
  name := "FindBytes"
  isWord := List.all_eq_true.1 (by decide)
  inside := .none
  arguments := [⟨.none, none, .string s.pattern, trivial, .none⟩,
    ⟨.space, none, .string s.text, trivial, .none⟩]

/-- What is read of the arguments of the call. -/
def arguments (s : Signature) : Routine.Arguments :=
  ⟨"FindBytes", [.string s.pattern, .string s.text], []⟩

end Signature

namespace Routine

open Signature (digits)

/-- The blanks between the digits of a pattern are left out. -/
theorem filter_intercalate_digits (bytes : List UInt8) :
    (List.intercalate [' '] (bytes.map digits)).filter (fun c => !Text.isBlank c) =
      bytes.flatMap digits := by
  have hdigits (b : UInt8) : (digits b).filter (fun c => !Text.isBlank c) = digits b := by
    refine List.filter_eq_self.2 fun c hc => ?_
    rw [Text.isBlank_of_isAlphanum (Numeral.isAlphanum_of_mem_fixedDigits hc)]
    rfl
  induction bytes with
  | nil => rfl
  | cons b bs ih =>
    cases bs with
    | nil => simpa using hdigits b
    | cons b' bs =>
      rw [List.map_cons, List.map_cons, List.intercalate_cons_cons, List.filter_append,
        List.filter_append, hdigits, ← List.map_cons, ih]
      rfl

/-- **The digits of bytes are read as the bytes.** -/
theorem readPairs_digits (bytes : List UInt8) :
    readPairs (bytes.flatMap digits) = .ok (bytes.map some) := by
  induction bytes with
  | nil => rfl
  | cons b bs ih =>
    have hdigits : digits b = [Numeral.digit (b.toNat / 16 % 16), Numeral.digit (b.toNat % 16)] := rfl
    have hhigh := Numeral.hexValue?_digit (Nat.mod_lt (b.toNat / 16) (by decide : 0 < 16))
    have hlow := Numeral.hexValue?_digit (Nat.mod_lt b.toNat (by decide : 0 < 16))
    have hmark : Numeral.digit (b.toNat / 16 % 16) ≠ '?' := by
      intro hmark
      have hnone : Numeral.hexValue? '?' = none := by decide
      rw [hmark, hnone] at hhigh
      cases hhigh
    have hvalue : UInt8.ofNat (16 * (b.toNat / 16 % 16) + b.toNat % 16) = b := by
      have hb := b.toNat_lt
      rw [show 16 * (b.toNat / 16 % 16) + b.toNat % 16 = b.toNat by omega, UInt8.ofNat_toNat]
    rw [List.flatMap_cons, hdigits, List.cons_append, List.cons_append, List.nil_append, readPairs,
      if_neg fun h => hmark h.1, hhigh, hlow, ih]
    show Except.ok (some (UInt8.ofNat _) :: bs.map some) = _
    rw [hvalue]
    rfl

/-- The pattern of a signature is read as its bytes. -/
theorem readPattern_pattern (s : Signature) : readPattern s.pattern = .ok (s.bytes.map some) := by
  have hlength : (s.bytes.flatMap digits).length = 6 := by
    have htwo (b : UInt8) : (digits b).length = 2 := Numeral.length_fixedDigits 16 2 b.toNat
    simp [List.length_flatMap, htwo, s.length_bytes]
  have hne : s.bytes.flatMap digits ≠ [] := by
    intro hnil
    rw [hnil] at hlength
    cases hlength
  rw [readPattern, Signature.pattern, String.toList_ofList, filter_intercalate_digits]
  rw [if_neg (by rw [hlength]; simp [hne]), readPairs_digits]

/-- Bytes that are all given match where the image holds them. -/
theorem matchesAt_map_some (image : Image) (address : Nat) (bytes : List UInt8) :
    matchesAt image address (bytes.map some) = decide (image.Holds address bytes) := by
  induction bytes generalizing address with
  | nil => rfl
  | cons b bs ih =>
    rw [List.map_cons]
    unfold matchesAt
    cases hbyte : image.byte? address with
    | none => simp [Image.Holds, hbyte]
    | some actual => simp [Image.Holds, hbyte, ih]

end Routine

namespace Script

open Signature Routine

variable {setting : Setting} {program rest : List Char} {c : Context}

/-- The context with comments on the signatures that stand at its position. -/
def Context.commentOn (image : Image) (signatures : List Signature) (c : Context) : Context :=
  { c with
    overlay := ((signatures.filter fun s => image.Holds c.position s.bytes).map
      (·.comment c.currentAddress)).foldl Overlay.insert c.overlay }

/-- The search routine tells whether the signature stands at the position, and comments on it if it
does. -/
theorem findBytes_signature (setting : Setting) (s : Signature) (c : Context) :
    findBytes setting s.arguments c =
      .ok (decide (setting.image.Holds c.position s.bytes)) (c.commentOn setting.image [s]) := by
  have hstring : s.arguments.string "bytes" 0 "" = .ok s.pattern := rfl
  have hcomment : s.arguments.string? "comment" 1 = .ok (some s.text) := rfl
  have hletter : s.arguments.string "position" 2 "E" = .ok "E" := rfl
  have hposition : "E".toList.head?.bind Position.ofLetter? = some .endOfLine := by decide
  have hlast : UInt16.ofNat ((s.bytes.map some).length - 1) = 2 := by
    rw [List.length_map, s.length_bytes]
    rfl
  rw [findBytes, hstring, hcomment, hletter]
  simp only [ofExcept_ok, readPattern_pattern, hposition, pure_bind]
  rw [bind_ok (get_apply c)]
  simp only [matchesAt_map_some]
  by_cases hholds : setting.image.Holds c.position s.bytes
  · simp only [hholds, decide_true]
    rw [bind_ok (modify_apply _ _), hlast]
    simp [Context.commentOn, hholds, Context.insertDirective, Signature.comment]
  · simp [Context.commentOn, hholds]

/-- **A call that looks for a signature is read and answered as such.** -/
theorem call_signature (running : Running) (s : Signature) (rest : List Char) (c : Context) :
    Script.call setting running (s.call.text ++ rest) c =
      .ok (running.fold (decide (setting.image.Holds c.position s.bytes)), rest)
        (c.commentOn setting.image [s]) := by
  have hname : "FindBytes".toLower = "findbytes" := by decide +kernel
  have hread : Arguments.read "FindBytes" (String.ofList s.call.argumentText) = .ok s.arguments :=
    s.call.read_argumentText
  have hroutine : Routine.call setting "FindBytes" (String.ofList s.call.argumentText) c =
      .ok (some (decide (setting.image.Holds c.position s.bytes)))
        (c.commentOn setting.image [s]) := by
    rw [Routine.call, hread]
    simp only [ofExcept_ok, pure_bind, hname]
    rw [bind_ok (findBytes_signature setting s c), pure_apply]
  have hcall : Source.call (s.call.text ++ rest) =
      .ok ("FindBytes", String.ofList s.call.argumentText, rest) := s.call.call_text rest
  exact call_of_routine hcall hroutine

/-- Comments on the signatures that come first, and then on the others. -/
theorem Context.commentOn_append (image : Image) (signatures signatures' : List Signature)
    (c : Context) :
    (c.commentOn image signatures).commentOn image signatures' =
      c.commentOn image (signatures ++ signatures') := by
  unfold commentOn
  rw [List.filter_append, List.map_append, List.foldl_append]
  rfl

/-- The truth value after looking for signatures. -/
def Running.look (image : Image) (position : Nat) : Running → List Signature → Running :=
  List.foldl fun running s => running.fold (decide (image.Holds position s.bytes))

theorem Running.look_cons (image : Image) (position : Nat) (running : Running) (s : Signature)
    (signatures : List Signature) :
    running.look image position (s :: signatures) =
      (running.fold (decide (image.Holds position s.bytes))).look image position signatures := rfl

/-- **A block that looks for signatures ends well**, with comments on those that are there. -/
theorem ends_signatures (signatures : List Signature) (running : Running) (c : Context) :
    Ends setting program true running
      (signatures.flatMap (fun s => '%' :: 'P' :: s.call.text) ++ '%' :: ')' :: rest) c
      ⟨(running.look setting.image c.position signatures).truth, .onward⟩ rest
      (c.commentOn setting.image signatures) := by
  induction signatures generalizing running c with
  | nil => exact ends_close setting program running rest c
  | cons s signatures ih =>
    have hposition : (c.commentOn setting.image [s]).position = c.position := rfl
    have hblock := ih (running.fold (decide (setting.image.Holds c.position s.bytes)))
      (c.commentOn setting.image [s])
    rw [hposition, Context.commentOn_append, List.singleton_append] at hblock
    rw [List.flatMap_cons, List.append_assoc]
    have hlength (cs : List Char) : cs.length ≤ (s.call.text ++ cs).length := by
      rw [List.length_append]
      exact Nat.le_add_left _ _
    exact Ends.call (call_signature running s _ c) (hlength _) hblock

/-- Results after the first are combined with those before. -/
theorem look_tested (image : Image) (position : Nat) {signatures : List Signature}
    (running : Running) (htested : running.tested = true)
    (hor : running.combinator = .or ∨ signatures = []) :
    (running.look image position signatures).truth = true ↔
      running.truth = true ∨ IsAt image signatures position := by
  induction signatures generalizing running with
  | nil => simp [Running.look, IsAt]
  | cons s signatures ih =>
    have hor : running.combinator = .or := hor.resolve_right (List.cons_ne_nil _ _)
    have hfold : running.fold (decide (image.Holds position s.bytes)) =
        { running with truth := running.truth || decide (image.Holds position s.bytes) } := by
      rw [Running.fold, if_pos htested, hor]
      rfl
    have htail := ih (running.fold (decide (image.Holds position s.bytes)))
      (by rw [hfold]; exact htested) (.inl (by rw [hfold]; exact hor))
    rw [Running.look_cons, htail, hfold, isAt_cons, ← or_assoc, Bool.or_eq_true, decide_eq_true_eq]

/-- **The truth value tells whether one of the signatures is there**, if there is only one or the
results are combined by `or`. -/
theorem look_truth (image : Image) (position : Nat) {signatures : List Signature} {running : Running}
    (hfirst : running.tested = false) (hne : signatures ≠ [])
    (hor : running.combinator = .or ∨ signatures.length = 1) :
    (running.look image position signatures).truth = decide (IsAt image signatures position) := by
  obtain ⟨s, signatures, rfl⟩ := List.exists_cons_of_ne_nil hne
  have hfold : running.fold (decide (image.Holds position s.bytes)) =
      { running with truth := decide (image.Holds position s.bytes), tested := true } := by
    rw [Running.fold, hfirst]
    rfl
  have hor : running.combinator = .or ∨ signatures = [] := by
    rcases hor with hor | hone
    · exact .inl hor
    · exact .inr (List.length_eq_zero_iff.1 (Nat.succ.inj hone))
  have htail := look_tested image position (running.fold (decide (image.Holds position s.bytes)))
    (by rw [hfold]) (hor.imp_left fun hor => by rw [hfold]; exact hor)
  rw [Bool.eq_iff_iff, Running.look_cons, htail, hfold, decide_eq_true_eq, decide_eq_true_eq,
    isAt_cons]

/-! ### Searching a range -/

/-- **What a search does to its context**: it adds comments to the overlay and leaves the
references and the lines as they are. -/
structure Context.Commented (c : Context) (comments : List Directive) (c' : Context) : Prop where
  overlay : c'.overlay = comments.foldl Overlay.insert c.overlay
  references : c'.references = c.references
  lines : c'.lines = c.lines
  line : c.line = none → c'.line = none

theorem Context.Commented.trans {c c₁ c₂ : Context} {comments comments' : List Directive}
    (h : c.Commented comments c₁) (h' : c₁.Commented comments' c₂) :
    c.Commented (comments ++ comments') c₂ where
  overlay := by rw [h'.overlay, h.overlay, List.foldl_append]
  references := h'.references.trans h.references
  lines := h'.lines.trans h.lines
  line hnone := h'.line (h.line hnone)

/-- The block that looks for signatures, up to its bracket, with what comes first in it. -/
def searchBlock (front : List Char) (signatures : List Signature) : List Char :=
  front ++ (signatures.flatMap (fun s => '%' :: 'P' :: s.call.text) ++ ['%', ')'])

/-- **A program that looks for signatures.** With one signature there is nothing to combine; with more
the results are combined by `or`. -/
def LooksFor (program : List Char) (signatures : List Signature) : Prop :=
  program = '%' :: '(' :: searchBlock [] signatures ∧ signatures.length = 1 ∨
    program = '%' :: '(' :: searchBlock ['%', '?', 'B', 'O'] signatures

/-- Such a program is a block, which tells whether one of the signatures stands at the position. -/
theorem LooksFor.ends (setting : Setting) {signatures : List Signature}
    (hlooks : LooksFor program signatures) (hne : signatures ≠ []) (c : Context) :
    ∃ body, program = '%' :: '(' :: body ∧ Ends setting program true {} body c
      ⟨decide (IsAt setting.image signatures c.position), .onward⟩ []
      (c.commentOn setting.image signatures) := by
  rcases hlooks with ⟨hprogram, hone⟩ | hprogram
  · refine ⟨_, hprogram, ?_⟩
    have htested : Running.tested {} = false := rfl
    have htruth := look_truth setting.image c.position htested hne (.inr hone)
    exact htruth ▸ ends_signatures signatures {} c
  · refine ⟨_, hprogram, ?_⟩
    have htruth := look_truth setting.image c.position
      (rfl : Running.tested { combinator := .or } = false) hne (.inl rfl)
    refine Ends.comparison rfl (by simp) ?_
    exact htruth ▸ ends_signatures signatures { combinator := .or } c

/-- At one address such a program does no more than its test. -/
theorem LooksFor.candidate (setting : Setting) {signatures : List Signature}
    (hlooks : LooksFor program signatures) (hne : signatures ≠ []) (c : Context) :
    candidate setting program program c =
      .ok (decide (IsAt setting.image signatures c.position))
        (c.commentOn setting.image signatures) := by
  obtain ⟨body, hprogram, hends⟩ := hlooks.ends setting hne c
  have hsteps : body.length < program.length + 1 := by
    rw [hprogram, List.length_cons, List.length_cons]
    omega
  have hrun := hends _ hsteps
  generalize decide (IsAt setting.image signatures c.position) = found at hrun ⊢
  nth_rewrite 2 [hprogram]
  simp only [Script.candidate, runBlock]
  rw [bind_ok hrun]
  cases found <;> rfl

/-- Moving to an address and commenting on the signatures there adds the comments of the address. -/
theorem commented_commentOn (image : Image) (signatures : List Signature) {address : Nat}
    (haddress : address < 0x10000) (matched : UInt16) (c : Context) :
    (c.beginCandidate (UInt16.ofNat address) matched).position = address ∧
      c.Commented (comments image signatures address)
        ((c.beginCandidate (UInt16.ofNat address) matched).commentOn image signatures) := by
  have hposition : (c.beginCandidate (UInt16.ofNat address) matched).position = address := by
    show (UInt16.ofNat address).toNat + 0 = address
    rw [UInt16.toNat_ofNat', Nat.mod_eq_of_lt haddress, Nat.add_zero]
  have hcurrent : (c.beginCandidate (UInt16.ofNat address) matched).currentAddress =
      UInt16.ofNat address := UInt16.add_zero _
  refine ⟨hposition, ?_, rfl, rfl, fun _ => rfl⟩
  rw [Context.commentOn, hposition, hcurrent]
  rfl

/-- **A search of addresses one after the other** counts those where one of the signatures stands, and
adds the comments of each. -/
theorem LooksFor.candidates (setting : Setting) {signatures : List Signature}
    (hlooks : LooksFor program signatures) (hne : signatures ≠ []) (count : Nat) {address : Nat}
    (haddress : address + count ≤ 0x10000) (matched : UInt16) (c : Context) :
    ∃ c', candidates setting program program count address matched c =
        .ok (matched + UInt16.ofNat ((List.range' address count).countP fun a =>
          IsAt setting.image signatures a)) c' ∧
      c.Commented ((List.range' address count).flatMap (comments setting.image signatures)) c' := by
  induction count generalizing address matched c with
  | zero =>
    refine ⟨c, ?_, rfl, rfl, rfl, id⟩
    show EStateM.Result.ok matched c = .ok (matched + 0) c
    rw [UInt16.add_zero]
  | succ count ih =>
    obtain ⟨hposition, hcommented⟩ := commented_commentOn setting.image signatures
      (by omega : address < 0x10000) matched c
    have hcandidate := hlooks.candidate setting hne
      (c.beginCandidate (UInt16.ofNat address) matched)
    rw [hposition] at hcandidate
    obtain ⟨c', hrun, hrest⟩ := ih (by omega : address + 1 + count ≤ 0x10000)
      (if decide (IsAt setting.image signatures address) = true then matched + 1 else matched)
      ((c.beginCandidate (UInt16.ofNat address) matched).commentOn setting.image signatures)
    refine ⟨c', ?_, ?_⟩
    · rw [Script.candidates, bind_ok (modify_apply _ _), bind_ok hcandidate, hrun,
        List.range'_succ, List.countP_cons]
      congr 1
      split_ifs
      · rw [UInt16.ofNat_add, UInt16.add_assoc, UInt16.add_comm 1]
        rfl
      · rfl
    · rw [List.range'_succ, List.flatMap_cons]
      exact hcommented.trans hrest

/-- **A program that looks for signatures finds every one of them and nothing else**, over any block
and in any context. -/
theorem LooksFor.runPattern (setting : Setting) {program : String} {signatures : List Signature}
    (hlooks : LooksFor program.toList signatures) (hapart : Apart signatures) (c : Context) :
    ∃ matched comments c', runPattern setting program c = .ok matched c' ∧
      Finds setting.image signatures c.blockStart.toNat c.blockEnd.toNat comments ∧
      matched.toNat = comments.length ∧ c.Commented comments c' := by
  have hfirst : c.blockStart.toNat < 0x10000 := c.blockStart.toNat_lt
  have hlast : c.blockEnd.toNat < 0x10000 := c.blockEnd.toNat_lt
  have htest : Source.skipIndent (Source.skipLayout program.toList) = program.toList := by
    obtain ⟨body, hprogram, -⟩ := hlooks.ends setting hapart.ne_nil c
    rw [hprogram]
    rfl
  have hfinds : Finds setting.image signatures c.blockStart.toNat c.blockEnd.toNat _ :=
    hapart.finds hlast
  obtain ⟨c', hrun, hcommented⟩ := hlooks.candidates setting hapart.ne_nil
    (c.blockEnd.toNat + 1 - c.blockStart.toNat)
    (by omega : c.blockStart.toNat + (c.blockEnd.toNat + 1 - c.blockStart.toNat) ≤ 0x10000) 0 c
  have hpattern : Script.runPattern setting program c =
      Script.candidates setting program.toList program.toList
        (c.blockEnd.toNat + 1 - c.blockStart.toNat) c.blockStart.toNat 0 c := by
    rw [Script.runPattern]
    simp only [htest]
    rw [bind_ok (get_apply c)]
  refine ⟨_, _, c', hpattern.trans hrun, hfinds, ?_, hcommented⟩
  rw [UInt16.zero_add, UInt16.toNat_ofNat', Nat.mod_eq_of_lt (hapart.countP_lt hlast),
    List.countP_eq_length_filter, ← hfinds.addresses, List.length_map]

/-! ### The built-in programs -/

/-- What each built-in pattern program looks for. -/
def searches : List (String × List Signature) := [
  ("save-bytes", [⟨[0xCD, 0xC2, 0x04], "Save IX,DE bytes", rfl⟩]),
  ("load-bytes", [⟨[0xCD, 0x56, 0x05], "Load IX,DE bytes", rfl⟩]),
  ("print-string", [⟨[0xCD, 0x3C, 0x20], "Print BC bytes from DE", rfl⟩]),
  ("rom-calls", [
    ⟨[0xCD, 0xC2, 0x04], "Save IX,DE bytes", rfl⟩,
    ⟨[0xCD, 0x56, 0x05], "Load IX,DE bytes", rfl⟩,
    ⟨[0xCD, 0x3C, 0x20], "Print BC bytes from DE", rfl⟩,
    ⟨[0xCD, 0x01, 0x16], "Open channel A", rfl⟩,
    ⟨[0xCD, 0xB5, 0x03], "Beep for DE cycles of HL", rfl⟩,
    ⟨[0xCD, 0x6B, 0x0D], "Clear the screen", rfl⟩])]

/-- The signatures of each program keep apart. -/
theorem apart_of_mem_searches {search : String × List Signature} (h : search ∈ searches) :
    Apart search.2 := by
  simp only [searches, List.mem_cons, List.not_mem_nil, or_false] at h
  rcases h with rfl | rfl | rfl | rfl <;> exact ⟨by simp, by decide, by decide⟩

/-- Each entry is about a built-in program that looks for its signatures. -/
theorem looksFor_of_mem_searches {search : String × List Signature} (h : search ∈ searches) :
    ∃ p, Preset.ofName? search.1 = some p ∧ p.kind = .pattern ∧
      LooksFor p.program.toList search.2 := by
  have hname {name : String} (hlower : name.toLower = name) :
      Preset.ofName? name = Preset.all.find? fun p => p.name = name := by
    rw [Preset.ofName?, hlower]
  simp only [searches, List.mem_cons, List.not_mem_nil, or_false] at h
  rcases h with rfl | rfl | rfl | rfl
  · exact ⟨_, (hname (by decide +kernel)).trans rfl, rfl, .inl ⟨by decide, rfl⟩⟩
  · exact ⟨_, (hname (by decide +kernel)).trans rfl, rfl, .inl ⟨by decide, rfl⟩⟩
  · exact ⟨_, (hname (by decide +kernel)).trans rfl, rfl, .inl ⟨by decide, rfl⟩⟩
  · refine ⟨_, (hname (by decide +kernel)).trans rfl, rfl, .inr ?_⟩
    simp only [String.toList_append]
    decide +kernel

/-- Every built-in pattern program has an entry. -/
theorem mem_searches_of_pattern {p : Preset} (hp : p ∈ Preset.all) (hkind : p.kind = .pattern) :
    ∃ search ∈ searches, search.1 = p.name := by
  simp only [Preset.all, List.mem_cons, List.not_mem_nil, or_false] at hp
  rcases hp with rfl | rfl | rfl | rfl | rfl | rfl | rfl | rfl | rfl | rfl | rfl | rfl | rfl | rfl |
    rfl | rfl | rfl | rfl <;> first | contradiction | simp [searches]

/-- **The built-in pattern programs find every call and nothing else.** Whatever the image, the
overlay and the block, each of them runs to its end; it counts the addresses of the block at which
one of its signatures stands, also where bytes of it lie behind the block or the address space, and
adds one comment at each of them, in ascending order, and nothing else. -/
theorem runPattern_finds (setting : Setting) (c : Context) :
    (∀ p ∈ Preset.all, p.kind = .pattern → ∃ search ∈ searches, search.1 = p.name) ∧
    ∀ search ∈ searches, ∃ p, Preset.ofName? search.1 = some p ∧ p.kind = .pattern ∧
      ∃ matched comments c', runPattern setting p.program c = .ok matched c' ∧
        Finds setting.image search.2 c.blockStart.toNat c.blockEnd.toNat comments ∧
        matched.toNat = comments.length ∧ c.Commented comments c' := by
  refine ⟨fun p hp hkind => mem_searches_of_pattern hp hkind, fun search hsearch => ?_⟩
  obtain ⟨p, hname, hkind, hlooks⟩ := looksFor_of_mem_searches hsearch
  exact ⟨p, hname, hkind, hlooks.runPattern setting (apart_of_mem_searches hsearch) c⟩

/-- Two calls at the top of the address space, the second one reaching past it. -/
def callBytes : Setting :=
  ⟨⟨#[0xCD, 0xC2, 0x04, 0xCD, 0x01, 0x16], 0, 0xFFFC, 4, by decide, by decide⟩, {},
    Spectrum.charset, Spectrum.floats⟩

/-- Both calls are found, and the one at the last address too. -/
theorem runPattern_finds_callBytes :
    ∃ p, Preset.ofName? "rom-calls" = some p ∧
      ∃ matched comments c',
        runPattern callBytes p.program (.start callBytes (.ofList []) ∅ 0xFFFC 0xFFFF) =
          .ok matched c' ∧
        comments.map (·.first.toNat) = [0xFFFC, 0xFFFF] ∧ matched.toNat = 2 ∧
        c'.overlay = .ofList comments := by
  obtain ⟨p, hname, -, matched, comments, c', hrun, hfinds, hmatched, hcommented⟩ :=
    (runPattern_finds callBytes (.start callBytes (.ofList []) ∅ 0xFFFC 0xFFFF)).2
      ("rom-calls", _) (.tail _ (.tail _ (.tail _ (.head _))))
  have haddresses := hfinds.addresses.trans (by decide : _ = [0xFFFC, 0xFFFF])
  have hlength := congrArg List.length haddresses
  rw [List.length_map] at hlength
  exact ⟨p, hname, matched, comments, c', hrun, haddresses, hmatched.trans hlength,
    hcommented.overlay⟩

end Script
end Disassembly
