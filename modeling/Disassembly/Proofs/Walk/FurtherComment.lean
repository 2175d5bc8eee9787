/-
# A walk with one more comment

A plain comment that is added to the directives of a walk decides nothing. It is pending in the one
walk and missing in the other until a line takes it, and from then on the walks differ by no more than
this comment on that line, or not at all where comments are hidden or the comment has ended
(`Further`). Every use of the overlays keeps that (`Further.lockstep`), so the walks go through the
same stops and end with the same lines but for this comment (`walk_further`).
-/

import Disassembly.Proofs.Overlay.FurtherComment
import Disassembly.Proofs.Walk.Lockstep

namespace Disassembly

open Directive

/-! ### Where the comment is -/

namespace Line

/-- Whether a line is another with one more comment before or after it. -/
inductive Gains (text : String) : Line → Line → Prop
  | before (line : Line) {texts : List String} (h : OneMore text line.before texts) :
      Gains text line { line with before := texts }
  | after (line : Line) {texts : List String} (h : OneMore text line.after texts) :
      Gains text line { line with after := texts }

variable {text : String} {line line' : Line}

theorem Gains.attach (h : Gains text line line') (position : Position) (other : String) :
    Gains text (line.attach position other) (line'.attach position other) := by
  cases h with
  | before h =>
    cases position with
    | before => exact .before _ (h.append_right [other])
    | endOfLine | after => exact .before _ h
  | after h =>
    cases position with
    | after => exact .after _ (h.append_right [other])
    | endOfLine | before => exact .after _ h

theorem Gains.attachAll (h : Gains text line line') (comments : List (Position × String)) :
    Gains text (line.attachAll comments) (line'.attachAll comments) := by
  induction comments generalizing line line' with
  | nil => exact h
  | cons comment comments ih => exact ih (h.attach comment.1 comment.2)

theorem gains_attach {position : Position} (hposition : position ≠ .endOfLine) (line : Line)
    (text : String) : Gains text line (line.attach position text) := by
  cases position with
  | before => exact .before line (.concat text line.before)
  | endOfLine => exact absurd rfl hposition
  | after => exact .after line (.concat text line.after)

/-- **One more comment among those that are attached is one more comment on the line.** -/
theorem gains_attachAll {position : Position} (hposition : position ≠ .endOfLine)
    {comments comments' : List (Position × String)}
    (h : OneMore (position, text) comments comments') (line : Line) :
    Gains text (line.attachAll comments) (line.attachAll comments') := by
  obtain ⟨front, back, rfl, rfl⟩ := h
  rw [Line.attachAll, Line.attachAll, List.foldl_append, List.foldl_append, List.foldl_cons]
  exact (gains_attach hposition _ text).attachAll back

end Line

/-- Whether one of the lines has one more comment before or after it. -/
def OneGains (text : String) (lines lines' : List Line) : Prop :=
  ∃ front line line' back, lines = front ++ line :: back ∧ lines' = front ++ line' :: back ∧
    line.Gains text line'

theorem OneGains.append {text : String} {lines lines' : List Line} (h : OneGains text lines lines')
    (more : List Line) : OneGains text (lines ++ more) (lines' ++ more) := by
  obtain ⟨front, line, line', back, rfl, rfl, hgains⟩ := h
  refine ⟨front, line, line', back ++ more, ?_, ?_, hgains⟩
  · rw [List.append_assoc, List.cons_append]
  · rw [List.append_assoc, List.cons_append]

/-- **How a further comment can make overlays differ**, with the lines written so far: it is pending,
or it is gone and stands on one of the lines or on none. -/
structure Further (d : Directive) (text : String) (o : Overlay) (lines : List Line) (o' : Overlay)
    (lines' : List Line) : Prop where
  live : o.live = o'.live
  comment : (OneMore d o.pending o'.pending ∧ lines = lines') ∨
    (o.pending = o'.pending ∧ (lines = lines' ∨ OneGains text lines lines'))

namespace Further

variable {d : Directive} {position : Position} {text : String} {o o' : Overlay}
  {lines lines' : List Line}

theorem append (h : Further d text o lines o' lines') (more : List Line) :
    Further d text o (lines ++ more) o' (lines' ++ more) := by
  refine ⟨h.live, ?_⟩
  obtain ⟨hmore, rfl⟩ | ⟨hsame, rfl | hgains⟩ := h.comment
  · exact .inl ⟨hmore, rfl⟩
  · exact .inr ⟨hsame, .inl rfl⟩
  · exact .inr ⟨hsame, .inr (hgains.append more)⟩

theorem insert (h : Further d text o lines o' lines') (e : Directive) :
    Further d text (o.insert e) lines (o'.insert e) lines' := by
  refine ⟨h.live, ?_⟩
  rw [Overlay.pending_insert, Overlay.pending_insert]
  obtain ⟨hmore, rfl⟩ | ⟨hsame, hlines⟩ := h.comment
  · exact .inl ⟨hmore.insertPending o'.sorted_pending e, rfl⟩
  · exact .inr ⟨by rw [hsame], hlines⟩

/-- There are as many pattern blocks, because the further directive is none. -/
theorem countP_isPattern (h : Further d text o lines o' lines')
    (ha : d.annotation = .comment position text) :
    o.pending.countP Walk.isPattern = o'.pending.countP Walk.isPattern := by
  obtain ⟨hmore, -⟩ | ⟨hsame, -⟩ := h.comment
  · rw [List.countP_eq_length_filter, List.countP_eq_length_filter,
      hmore.filter_of_neg (by rw [Walk.isPattern, ha])]
  · rw [hsame]

/-- **The same directive is taken from both overlays.** -/
theorem takeActive (h : Further d text o lines o' lines') (hd : d.isPlainComment = true)
    (cursor : Nat) :
    (o.takeActive cursor = none ∧ o'.takeActive cursor = none) ∨
      ∃ e rest rest', o.takeActive cursor = some (e, rest) ∧
        o'.takeActive cursor = some (e, rest') ∧ Further d text rest lines rest' lines' := by
  obtain ⟨hmore, rfl⟩ | ⟨hsame, hlines⟩ := h.comment
  · obtain ⟨hnone, hnone'⟩ | ⟨e, rest, rest', hsome, hsome', hrest⟩ :=
      hmore.takeActivePending o'.sorted_pending hd cursor
    · exact .inl ⟨Overlay.takeActive_eq_none_iff.2 hnone, Overlay.takeActive_eq_none_iff.2 hnone'⟩
    · obtain ⟨left, htaken, rfl⟩ := Overlay.exists_takeActive hsome
      obtain ⟨left', htaken', rfl⟩ := Overlay.exists_takeActive hsome'
      refine .inr ⟨e, left, left', htaken, htaken', ?_, .inl ⟨hrest, rfl⟩⟩
      rw [Overlay.live_takeActive htaken, Overlay.live_takeActive htaken', h.live]
  · obtain hnone | ⟨e, rest, rest', htaken, htaken', hrest⟩ :=
      Overlay.Same.takeActive ⟨hsame, h.live⟩ cursor
    · exact .inl hnone
    · exact .inr ⟨e, rest, rest', htaken, htaken', hrest.live, .inr ⟨hrest.pending, hlines⟩⟩

/-- **A line takes its comments**, and the further one with them if it has not been taken before. -/
theorem takeComments (h : Further d text o lines o' lines')
    (ha : d.annotation = .comment position text) (hposition : position ≠ .endOfLine)
    (first last : Nat) (shown : Bool) (line : Line) (more : List Overlay.Comment) :
    Further d text (o.takeComments first last).2
      (lines ++ [if shown then line.attachAll ((o.takeComments first last).1 ++ more) else line])
      (o'.takeComments first last).2
      (lines' ++
        [if shown then line.attachAll ((o'.takeComments first last).1 ++ more) else line]) := by
  refine ⟨by rw [Overlay.live_takeComments, Overlay.live_takeComments, h.live], ?_⟩
  obtain ⟨hmore, rfl⟩ | ⟨hsame, hlines⟩ := h.comment
  · obtain ⟨hsame, hrest⟩ | ⟨htaken, hrest⟩ := hmore.takeComments ha first last
    · exact .inl ⟨hrest, by rw [hsame]⟩
    · refine .inr ⟨hrest, ?_⟩
      obtain hsame | hone := htaken
      · exact .inl (by rw [hsame])
      · cases shown with
        | false => exact .inl rfl
        | true =>
          exact .inr ⟨lines, _, _, [], rfl, rfl,
            Line.gains_attachAll hposition (hone.append_right more) line⟩
  · obtain ⟨htaken, hrest⟩ := Overlay.Same.takeComments ⟨hsame, h.live⟩ first last
    refine .inr ⟨hrest.pending, ?_⟩
    rw [htaken]
    obtain rfl | hgains := hlines
    · exact .inl rfl
    · exact .inr (hgains.append _)

/-- Where a line is given up, the further comment may go with it. -/
theorem dropComments (h : Further d text o lines o' lines')
    (ha : d.annotation = .comment position text) (first last : Nat) :
    Further d text (o.takeComments first last).2 lines (o'.takeComments first last).2 lines' := by
  refine ⟨by rw [Overlay.live_takeComments, Overlay.live_takeComments, h.live], ?_⟩
  obtain ⟨hmore, rfl⟩ | ⟨hsame, hlines⟩ := h.comment
  · obtain ⟨-, hrest⟩ | ⟨-, hrest⟩ := hmore.takeComments ha first last
    · exact .inl ⟨hrest, rfl⟩
    · exact .inr ⟨hrest, .inl rfl⟩
  · exact .inr ⟨(Overlay.Same.takeComments ⟨hsame, h.live⟩ first last).2.pending, hlines⟩

/-- **Every use of the overlays keeps the difference.** -/
theorem lockstep (ha : d.annotation = .comment position text) (hposition : position ≠ .endOfLine) :
    ExactLockstep (Further d text) where
  append := append
  insert := insert
  takeComments h := h.takeComments ha hposition
  dropComments h := h.dropComments ha
  live := live
  patterns h := h.countP_isPattern ha
  of_pending h hp hp' hlive := ⟨hlive, by rw [hp, hp']; exact h.comment⟩
  takeActive h := h.takeActive (by rw [Directive.isPlainComment, ha])

end Further

/-- **A comment that is laid over an image is one more that is pending**, wherever it stands among
the directives. -/
theorem further_ofList (d : Directive) (text : String) (ds es : List Directive) :
    Further d text (.ofList (ds ++ es)) [] (.ofList (ds ++ d :: es)) [] := by
  have hfold {o o' : Overlay} (h : Further d text o [] o' []) :
      Further d text (es.foldl Overlay.insert o) [] (es.foldl Overlay.insert o') [] := by
    induction es generalizing o o' with
    | nil => exact h
    | cons e es ih => exact ih (h.insert e)
  rw [Overlay.ofList, Overlay.ofList, List.foldl_append, List.foldl_append, List.foldl_cons]
  refine hfold ⟨rfl, .inl ⟨?_, rfl⟩⟩
  rw [Overlay.pending_insert]
  exact OneMore.ofInsertPending d _

namespace Walk

variable {d : Directive} {position : Position} {text : String}

/-- **A walk with one more comment fails as the walk without it does, or ends with the lines of that
walk and one more comment on one of them at most.** The comment may stand anywhere among the
directives. -/
theorem walk_further {ds es : List Directive} (ha : d.annotation = .comment position text)
    (hposition : position ≠ .endOfLine) (m : Machine) (base : Scope) (p : Progress) :
    SameEnd (fun w w' => w.references = w'.references ∧
        (w.lines = w'.lines ∨ OneGains text w.lines.toList w'.lines.toList))
      (walk m (start base (ds ++ es)) p).2 (walk m (start base (ds ++ d :: es)) p).2 := by
  have hstart : Paired (Further d text) (start base (ds ++ es)) (start base (ds ++ d :: es)) :=
    ⟨rfl, rfl, further_ofList d text ds es⟩
  refine ((simulates_paired (Further.lockstep ha hposition) m).walk hstart p).2.mono
    fun w w' hw => ⟨hw.references, ?_⟩
  obtain ⟨-, hlines⟩ | ⟨-, hlines | hgains⟩ := hw.overlay.comment
  · exact .inl (Array.toList_inj.1 hlines)
  · exact .inl (Array.toList_inj.1 hlines)
  · exact .inr hgains

end Walk
end Disassembly
