/-
# A further comment in the listing

A comment before or after a line stands on a line of its own, behind a `;`, as it is given. If it
holds line feeds, only the first of the physical lines that it adds begins with the `;`, so the others
can look like code (`disassemble_lineFeed_in_comment`). Apart from that a further comment adds itself
and changes nothing: the listing is the same, or has the physical lines of the comment at one place
(`disassemble_further_comment`).
-/

import Disassembly.Proofs.Disassemble.Listing
import Disassembly.Proofs.Labels.HiddenRuns
import Disassembly.Proofs.Text.Split
import Disassembly.Proofs.Walk.FurtherComment

namespace Disassembly

/-! ### Physical lines -/

/-- The physical lines of a text: what stands between its line feeds. -/
def physicalLines (text : String) : List (List Char) := Text.splitOn '\n' text.toList

/-- Whether a physical line begins as a comment does. -/
def isCommentLine (line : List Char) : Bool := line.head? = some ';'

/-- Whether a list is another with elements inserted that all have the property. -/
inductive Inserted {α : Type} (p : α → Bool) : List α → List α → Prop
  | nil : Inserted p [] []
  | keep {xs ys : List α} (x : α) (rest : Inserted p xs ys) : Inserted p (x :: xs) (x :: ys)
  | insert {xs ys : List α} {y : α} (hy : p y = true) (rest : Inserted p xs ys) :
      Inserted p xs (y :: ys)

namespace Inserted

variable {α : Type} {p : α → Bool}

theorem refl (xs : List α) : Inserted p xs xs := by
  induction xs with
  | nil => exact .nil
  | cons x xs ih => exact .keep x ih

/-- What does not have the property is as often there as before. -/
theorem countP_eq {xs ys : List α} (h : Inserted p xs ys) :
    ys.countP (fun y => !p y) = xs.countP fun y => !p y := by
  induction h with
  | nil => rfl
  | keep x rest ih => rw [List.countP_cons, List.countP_cons, ih]
  | insert hy rest ih => rw [List.countP_cons, ih, hy]; rfl

/-- **Elements that stand together are inserted exactly if they all have the property.** -/
theorem append_iff {front middle back : List α} :
    Inserted p (front ++ back) (front ++ middle ++ back) ↔ ∀ x ∈ middle, p x = true := by
  constructor
  · intro h
    have hcount := h.countP_eq
    simp only [List.countP_append] at hcount
    have hzero : middle.countP (fun y => !p y) = 0 := by omega
    intro x hx
    simpa using List.countP_eq_zero.1 hzero x hx
  · intro h
    induction front with
    | nil =>
      induction middle with
      | nil => exact refl back
      | cons x middle ih =>
        rw [List.forall_mem_cons] at h
        exact .insert h.1 (ih h.2)
    | cons x front ih => exact .keep x ih

end Inserted

/-- The lines of a comment all begin with `;` exactly if those of its text behind the first do. -/
theorem isCommentLine_physicalLines (text : String) :
    (∀ line ∈ physicalLines (";" ++ text), isCommentLine line = true) ↔
      ∀ line ∈ (physicalLines text).tail, isCommentLine line = true := by
  obtain ⟨first, rest, hlines⟩ :=
    List.exists_cons_of_ne_nil (Text.splitOn_ne_nil '\n' text.toList)
  have hcomment : physicalLines (";" ++ text) = (';' :: first) :: rest := by
    rw [physicalLines, String.toList_append]
    exact Text.splitOn_append_of_not_mem (by decide) hlines
  rw [hcomment, physicalLines, hlines, List.forall_mem_cons, List.tail_cons]
  exact and_iff_right rfl

/-- Whether a text ends where a physical line does. -/
def EndsLine (text : String) : Prop := text = "" ∨ ∃ front, text = front ++ "\n"

theorem EndsLine.append {s t : String} (hs : EndsLine s) (ht : EndsLine t) : EndsLine (s ++ t) := by
  obtain rfl | ⟨front, rfl⟩ := ht
  · rwa [String.append_empty]
  · exact .inr ⟨s ++ front, String.append_assoc.symm⟩

theorem endsLine_join {texts : List String} (h : ∀ text ∈ texts, EndsLine text) :
    EndsLine (String.join texts) := by
  induction texts with
  | nil => exact .inl rfl
  | cons text texts ih =>
    rw [List.forall_mem_cons] at h
    rw [String.join_cons]
    exact h.1.append (ih h.2)

/-- **The physical lines of a text that is cut where a line ends are those of its two parts.** -/
theorem EndsLine.exists_physicalLines {front : String} (h : EndsLine front) :
    ∃ lines, ∀ back, physicalLines (front ++ back) = lines ++ physicalLines back := by
  obtain rfl | ⟨front, rfl⟩ := h
  · exact ⟨[], fun back => by rw [String.empty_append, List.nil_append]⟩
  · refine ⟨physicalLines front, fun back => ?_⟩
    simp only [physicalLines, String.toList_append, List.append_assoc]
    exact Text.splitOn_append_cons '\n' front.toList back.toList

/-! ### Plain text -/

namespace PlainText

theorem endsLine_comment (text : String) : EndsLine (format.comment text) := .inr ⟨";" ++ text, rfl⟩

theorem endsLine_line (column : AddressColumn) (line : Line) : EndsLine (format.line column line) := by
  change EndsLine (PlainText.line column line)
  unfold PlainText.line
  split
  · exact .inr ⟨"", rfl⟩
  · exact .inr ⟨_, rfl⟩
  · exact .inr ⟨_, rfl⟩

theorem endsLine_comments (texts : List String) :
    EndsLine (String.join (texts.map format.comment)) := by
  refine endsLine_join fun text htext => ?_
  obtain ⟨comment, -, rfl⟩ := List.mem_map.1 htext
  exact endsLine_comment comment

theorem endsLine_lineText (column : AddressColumn) (line : Line) :
    EndsLine (Labels.lineText format column line) := by
  refine (((endsLine_comments _).append (endsLine_line column line)).append
    (endsLine_comments _)).append ?_
  split
  · exact .inr ⟨"", rfl⟩
  · exact .inl rfl

/-- Whether a text is another with a comment on a line of its own. -/
def GainsComment (comment text text' : String) : Prop :=
  ∃ front back, EndsLine front ∧ text = front ++ back ∧
    text' = front ++ (format.comment comment ++ back)

theorem GainsComment.between {comment text text' : String} (h : GainsComment comment text text')
    {before : String} (hbefore : EndsLine before) (after : String) :
    GainsComment comment (before ++ (text ++ after)) (before ++ (text' ++ after)) := by
  obtain ⟨front, back, hfront, rfl, rfl⟩ := h
  refine ⟨before ++ front, back ++ after, hbefore.append hfront, ?_, ?_⟩
  · simp only [String.append_assoc]
  · simp only [String.append_assoc]

/-- One more comment among those on lines of their own. -/
theorem gainsComment_join {comment : String} {texts texts' : List String}
    (h : OneMore comment texts texts') :
    GainsComment comment (String.join (texts.map format.comment))
      (String.join (texts'.map format.comment)) := by
  obtain ⟨front, back, rfl, rfl⟩ := h
  refine ⟨_, String.join (back.map format.comment), endsLine_comments front, ?_, ?_⟩
  · rw [List.map_append, String.join_append]
  · rw [List.map_append, String.join_append, List.map_cons, String.join_cons]

/-- **One more comment on a line is one more comment in its text.** -/
theorem gainsComment_lineText {comment : String} {line line' : Line} (h : line.Gains comment line')
    (column : AddressColumn) :
    GainsComment comment (Labels.lineText format column line)
      (Labels.lineText format column line') := by
  cases h with
  | before h =>
    have hgains := (gainsComment_join h).between (.inl rfl) (format.line column line ++
      (String.join (line.after.map format.comment) ++ if line.wantsGap then format.blank else ""))
    simp only [String.empty_append, ← String.append_assoc] at hgains
    exact hgains
  | after h =>
    have hgains := (gainsComment_join h).between
      ((endsLine_comments line.before).append (endsLine_line column line))
      (if line.wantsGap then format.blank else "")
    simp only [← String.append_assoc] at hgains
    exact hgains

/-- **One more comment on one of the lines is one more comment in the listing.** What is counted for
the address columns is carried through the lines, so the induction is on those in front. -/
theorem gainsComment_listing {comment : String} {lines lines' : List Line}
    (h : OneGains comment lines lines') (references : Std.TreeSet UInt16) :
    GainsComment comment (Labels.listing format references lines)
      (Labels.listing format references lines') := by
  have hlisting (lines : List Line) : Labels.listing format references lines =
      String.join (List.zipWith (Labels.lineText format)
        (Labels.columns references {} lines) lines) := by
    rw [Labels.listing]
    exact (String.append_empty).trans String.empty_append
  rw [hlisting, hlisting]
  obtain ⟨front, line, line', back, rfl, rfl, hgains⟩ := h
  have hmarker : line'.marker = line.marker := by cases hgains <;> rfl
  generalize ({} : Labels.Counter) = c
  induction front generalizing c with
  | nil =>
    simp only [List.nil_append, Labels.columns, List.zipWith_cons_cons, String.join_cons, hmarker]
    have htext := (gainsComment_lineText hgains (Labels.column references c line.marker).1).between
      (.inl rfl) (String.join (List.zipWith (Labels.lineText format)
        (Labels.columns references (Labels.column references c line.marker).2 back) back))
    simpa only [String.empty_append] using htext
  | cons other front ih =>
    simp only [List.cons_append, Labels.columns, List.zipWith_cons_cons, String.join_cons]
    have hrest := (ih (Labels.column references c other.marker).2).between
      (endsLine_lineText (Labels.column references c other.marker).1 other) ""
    simpa only [String.append_empty] using hrest

/-- **A comment on a line of its own adds the physical lines of the comment.** -/
theorem GainsComment.physicalLines {comment text text' : String}
    (h : GainsComment comment text text') :
    ∃ front back, Disassembly.physicalLines text = front ++ back ∧
      Disassembly.physicalLines text' =
        front ++ Disassembly.physicalLines (";" ++ comment) ++ back := by
  obtain ⟨front, back, hfront, rfl, rfl⟩ := h
  obtain ⟨lines, hlines⟩ := hfront.exists_physicalLines
  refine ⟨lines, Disassembly.physicalLines back, hlines back, ?_⟩
  rw [hlines, List.append_assoc]
  refine congrArg (lines ++ ·) ?_
  change Text.splitOn '\n' (";" ++ comment ++ "\n" ++ back).toList = _
  rw [String.toList_append, String.toList_append, List.append_assoc]
  exact Text.splitOn_append_cons '\n' _ _

end PlainText

/-! ### Disassembly -/

theorem baseScope_further {d : Directive} {position : Position} {text : String}
    (ha : d.annotation = .comment position text) (defaults : Scope) (ds es : List Directive) :
    baseScope defaults (ds ++ d :: es) = baseScope defaults (ds ++ es) := by
  simp only [baseScope, List.foldl_append, List.foldl_cons, ha]

theorem scopedDirectives_further {d : Directive} {position : Position} {text : String}
    (ha : d.annotation = .comment position text) (ds es : List Directive) :
    scopedDirectives (ds ++ d :: es) = scopedDirectives ds ++ d :: scopedDirectives es := by
  have hscoped : d.isGlobalFormat = false := by
    rw [Directive.isGlobalFormat, ha, Bool.and_false]
  rw [scopedDirectives, List.filter_append, List.filter_cons_of_pos (by rw [hscoped]; rfl)]
  rfl

section Further

variable {m : Machine} {defaults : Scope} {ds es : List Directive} {d : Directive}
  {position : Position} {text listing : String}

/-- A list of directives with a further comment gives a listing if the list does: the same, or one
with the comment on a line of its own. -/
theorem disassemble_gainsComment (ha : d.annotation = .comment position text)
    (hposition : position ≠ .endOfLine) (hplain : (baseScope defaults (ds ++ es)).markup = false)
    (h : (disassemble m (ds ++ es) defaults).2 = .ok listing) :
    ∃ listing', (disassemble m (ds ++ d :: es) defaults).2 = .ok listing' ∧
      (listing' = listing ∨ PlainText.GainsComment text listing listing') := by
  have hbase := baseScope_further ha defaults ds es
  have hformat : listingFormat (baseScope defaults (ds ++ es)) = PlainText.format := by
    rw [listingFormat, hplain]
    rfl
  have hends : Walk.SameEnd (fun w w' => w.references = w'.references ∧
      (w.lines = w'.lines ∨ OneGains text w.lines.toList w'.lines.toList))
      (walkOf m (ds ++ es) defaults) (walkOf m (ds ++ d :: es) defaults) := by
    rw [walkOf, walkOf, hbase, scopedDirectives_further ha, scopedDirectives, List.filter_append]
    exact Walk.walk_further ha hposition m _ _
  rw [disassemble_snd, hformat] at h
  rw [disassemble_snd, hbase, hformat]
  generalize walkOf m (ds ++ es) defaults = r at h hends
  generalize walkOf m (ds ++ d :: es) defaults = r' at hends ⊢
  cases hends with
  | error e => exact absurd h (by simp [Except.map])
  | @ok w w' hw =>
    obtain rfl : Labels.listing PlainText.format w.references w.lines.toList = listing :=
      Except.ok.inj h
    refine ⟨Labels.listing PlainText.format w'.references w'.lines.toList, rfl, ?_⟩
    obtain ⟨hreferences, hsame | hgains⟩ := hw
    · exact .inl (by rw [hreferences, hsame])
    · rw [← hreferences]
      exact .inr (PlainText.gainsComment_listing hgains w.references)

/-- **A further comment adds its physical lines and changes nothing else.** If a list of directives
gives a plain text listing, then so does the list with a comment added to it anywhere, to be placed
before or after a line. Its listing is the same, or has the physical lines of `;` and the text of the
comment inserted at one place. So every line that is inserted begins with `;` exactly if nothing is
inserted or the lines of the text behind the first begin with `;` themselves. -/
theorem disassemble_further_comment (ha : d.annotation = .comment position text)
    (hposition : position ≠ .endOfLine) (hplain : (baseScope defaults (ds ++ es)).markup = false)
    (h : (disassemble m (ds ++ es) defaults).2 = .ok listing) :
    ∃ listing', (disassemble m (ds ++ d :: es) defaults).2 = .ok listing' ∧
      (listing' = listing ∨ ∃ front back, physicalLines listing = front ++ back ∧
        physicalLines listing' = front ++ physicalLines (";" ++ text) ++ back) ∧
      (Inserted isCommentLine (physicalLines listing) (physicalLines listing') ↔
        listing' = listing ∨ ∀ line ∈ (physicalLines text).tail, isCommentLine line = true) := by
  obtain ⟨listing', hlisting', rfl | hgains⟩ := disassemble_gainsComment ha hposition hplain h
  · exact ⟨listing', hlisting', .inl rfl, fun _ => .inl rfl, fun _ => .refl _⟩
  · obtain ⟨front, back, hlines, hlines'⟩ := hgains.physicalLines
    refine ⟨listing', hlisting', .inr ⟨front, back, hlines, hlines'⟩, ?_⟩
    have hne : listing' ≠ listing := by
      rintro rfl
      rw [hlines, List.append_assoc, List.append_cancel_left_eq, List.self_eq_append_left] at hlines'
      exact Text.splitOn_ne_nil _ _ hlines'
    rw [hlines, hlines', Inserted.append_iff, isCommentLine_physicalLines]
    exact (or_iff_right hne).symm

end Further

/-- A load, at 8000. -/
def loadSample : Machine :=
  ⟨⟨#[0x3E, 0x01], 0, 0x8000, 2, by decide, by decide⟩, Spectrum.charset, Spectrum.floats⟩

/-- A comment of two lines, of which the second begins with `;`, is inserted as comments are. -/
theorem disassemble_further_comment_sample :
    let d : Directive := ⟨0x8000, 0x8000, .comment .after "was:\n;8000  XOR A"⟩
    ∃ listing', (disassemble loadSample [d] {}).2 = .ok listing' ∧
      Inserted isCommentLine (physicalLines "8000  LD A,#01\n") (physicalLines listing') := by
  intro d
  obtain ⟨listing', hlisting', -, hinserted⟩ := @disassemble_further_comment loadSample {} [] [] d
    .after _ "8000  LD A,#01\n" rfl (by decide) rfl rfl
  exact ⟨listing', hlisting', hinserted.2 (.inr (by decide))⟩

/-- **The lines of a comment can be mistaken for code**: the second line of this comment, which has
no `;`, reads as an instruction at the address that the first one is about. -/
theorem disassemble_lineFeed_in_comment :
    let d : Directive := ⟨0x8000, 0x8000, .comment .before "was:\n8000  XOR A"⟩
    (disassemble loadSample [] {}).2 = .ok "8000  LD A,#01\n" ∧
      (disassemble loadSample [d] {}).2 = .ok ";was:\n8000  XOR A\n8000  LD A,#01\n" ∧
      ¬Inserted isCommentLine (physicalLines "8000  LD A,#01\n")
        (physicalLines ";was:\n8000  XOR A\n8000  LD A,#01\n") := by
  refine ⟨rfl, rfl, fun h => ?_⟩
  exact absurd h.countP_eq (by decide)

end Disassembly
