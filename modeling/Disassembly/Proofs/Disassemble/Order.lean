/-
# The order of directives

Directives may be given in any order. Only those with the same range are taken in the order in which
they are given (`disassemble_congr`), so sorting them first changes nothing (`disassemble_sort`).
Format directives for the whole address space change the default scope one after the other, and they
all have the same range; the others are laid over the image. There they get other numbers of arrival
than in another order, and so do the directives that scripts add to them. But the keys stand in the
same order all the while (`lockstep_same`), and the walks go through the same stops (`walk_congr`).
-/

import Disassembly.Disassemble
import Disassembly.Proofs.Walk.Lockstep

namespace Disassembly

open Directive

variable {ds ds' : List Directive}

/-- Lists that agree on each range agree on each range after dropping directives. -/
theorem filter_sameRange_filter (keep : Directive → Bool)
    (h : ∀ d, ds.filter (sameRange d) = ds'.filter (sameRange d)) (d : Directive) :
    (ds.filter keep).filter (sameRange d) = (ds'.filter keep).filter (sameRange d) := by
  rw [List.filter_comm, h d, List.filter_comm]

/-- Only format directives for the whole address space change the default scope. -/
theorem baseScope_filter (defaults : Scope) (ds : List Directive) :
    baseScope defaults (ds.filter isGlobalFormat) = baseScope defaults ds := by
  unfold baseScope
  rw [List.foldl_filter]
  congr 1
  funext scope d
  cases hd : d.isGlobalFormat with
  | true => simp
  | false => cases d.annotation <;> simp

/-- Format directives for the whole address space all have the same range. -/
theorem filter_isGlobalFormat (ds : List Directive) (a : Annotation) :
    (ds.filter (sameRange ⟨0, 0xFFFF, a⟩)).filter isGlobalFormat =
      ds.filter isGlobalFormat := by
  rw [List.filter_filter]
  refine List.filter_congr fun d _ => ?_
  cases hd : d.isGlobalFormat with
  | false => rfl
  | true =>
    simp only [isGlobalFormat, Bool.and_eq_true, decide_eq_true_eq] at hd
    rw [Bool.true_and, sameRange_iff]
    exact ⟨hd.1.1.symm, hd.1.2.symm⟩

/-- The default scope depends only on what each range holds. -/
theorem baseScope_congr (defaults : Scope)
    (h : ∀ d, ds.filter (sameRange d) = ds'.filter (sameRange d)) :
    baseScope defaults ds = baseScope defaults ds' := by
  rw [← baseScope_filter, ← baseScope_filter defaults ds',
    ← filter_isGlobalFormat ds (.dataBlock ""), h, filter_isGlobalFormat]

/-- What an overlay holds depends only on what each range holds. -/
theorem same_ofList (h : ∀ d, ds.filter (sameRange d) = ds'.filter (sameRange d)) :
    (Overlay.ofList ds).Same (Overlay.ofList ds') := by
  refine ⟨?_, by rw [Overlay.live_ofList, Overlay.live_ofList]⟩
  rw [Overlay.pending_ofList, Overlay.pending_ofList]
  refine eq_of_sorted_of_filter_eq (sorted_sort ds) (sorted_sort ds') fun d => ?_
  rw [filter_sort, filter_sort, h d]

/-- The keys need not be the same: of two directives given in the other order, the first of their
ranges is the second to arrive. -/
example :
    let early : Directive := ⟨0x8000, 0x8001, .comment .before "early"⟩
    let late : Directive := ⟨0x8002, 0x8003, .comment .before "late"⟩
    (Overlay.ofList [late, early]).entries.toList.map (·.1.arrival) = [1, 0] ∧
      (Overlay.ofList [early, late]).entries.toList.map (·.1.arrival) = [0, 1] := by
  decide

/-- **Overlays that hold the same under other keys are used in step**: the lines written are the same.
-/
theorem lockstep_same : ExactLockstep fun o lines o' lines' => o.Same o' ∧ lines = lines' where
  append h more := ⟨h.1, by rw [h.2]⟩
  insert h d := ⟨h.1.insert d, h.2⟩
  takeComments h first last shown line more := by
    obtain ⟨htaken, hrest⟩ := h.1.takeComments first last
    exact ⟨hrest, by rw [htaken, h.2]⟩
  dropComments h first last := ⟨(h.1.takeComments first last).2, h.2⟩
  live h := h.1.live
  patterns h := by rw [h.1.pending]
  of_pending h hp hp' hlive := ⟨⟨by rw [hp, hp', h.1.pending], hlive⟩, h.2⟩
  takeActive h cursor := by
    obtain hnone | ⟨d, rest, rest', taken, taken', hrest⟩ := h.1.takeActive cursor
    · exact .inl hnone
    · exact .inr ⟨d, rest, rest', taken, taken', hrest, h.2⟩

/-- **Walks over directives that agree on each range** report the same progress, and fail with the
same error or end with the same lines and references. -/
theorem walk_congr (m : Machine) (base : Scope) (p : Progress)
    (h : ∀ d, ds.filter (sameRange d) = ds'.filter (sameRange d)) :
    (Walk.walk m (.start base ds) p).1 = (Walk.walk m (.start base ds') p).1 ∧
      Walk.SameEnd (fun w w' => w.references = w'.references ∧ w.lines = w'.lines)
        (Walk.walk m (.start base ds) p).2 (Walk.walk m (.start base ds') p).2 := by
  have hstart : Walk.Paired (fun o lines o' lines' => o.Same o' ∧ lines = lines')
      (.start base ds) (.start base ds') := ⟨rfl, rfl, same_ofList h, rfl⟩
  obtain ⟨hprogress, hend⟩ := (Walk.simulates_paired lockstep_same m).walk hstart p
  exact ⟨hprogress, hend.mono fun w w' hw => ⟨hw.references, Array.toList_inj.1 hw.overlay.2⟩⟩

/-- **Only the order of directives with equal ranges matters.** Lists that hold the same directives
in the same order for each range have the same result and make the same progress. -/
theorem disassemble_congr (m : Machine) (defaults : Scope)
    (h : ∀ d, ds.filter (sameRange d) = ds'.filter (sameRange d)) :
    disassemble m ds defaults = disassemble m ds' defaults := by
  obtain ⟨hprogress, hend⟩ := walk_congr m (baseScope defaults ds') { total := 2 * m.image.length }
    (filter_sameRange_filter (fun d => !d.isGlobalFormat) h)
  simp only [disassemble, baseScope_congr defaults h, scopedDirectives, hprogress]
  generalize (Walk.walk m (.start _ (ds.filter _)) _).2 = r at hend ⊢
  generalize (Walk.walk m (.start _ (ds'.filter _)) _).2 = r' at hend ⊢
  cases hend with
  | error e => rfl
  | ok hw => simp only [hw.1, hw.2]

/-- **Sorting the directives changes nothing**: the listing or the error is the same, and so are the
reports of progress. -/
theorem disassemble_sort (m : Machine) (ds : List Directive) (defaults : Scope) :
    disassemble m (sort ds) defaults = disassemble m ds defaults :=
  disassemble_congr m defaults fun d => filter_sort d ds

end Disassembly
