/-
# Progress reports are spaced

Any values may be reported, in any order. The reports that are made rise by an interval at least and
stay within the total (`Spaced`), so there are few of them, and each value that is reported is shown
up to an interval (`Spaced.reportAll`). The last report is that everything is done.
-/

import Disassembly.Progress
import Mathlib.Data.List.Basic

namespace Disassembly
namespace Progress

/-- Report values one after the other. -/
def reportAll (p : Progress) (values : List Nat) : Progress := values.foldl report p

/-- Report values out of a total, and then that everything is done. -/
def run (total : Nat) (values : List Nat) : Progress :=
  (reportAll { total } values).finish

variable {p : Progress} {done : List Nat}

/-- A report is made unless the last one is too close. -/
theorem report_cases (p : Progress) (value : Nat) :
    (max (min value p.total) p.reported < p.next ∧ p.report value = p) ∨
      (p.next ≤ max (min value p.total) p.reported ∧
        p.report value =
          { p with
            reported := max (min value p.total) p.reported
            next := max (min value p.total) p.reported + interval
            reports := p.reports.push (max (min value p.total) p.reported, p.total) }) := by
  unfold report
  dsimp only
  split
  · exact .inl ⟨‹_›, rfl⟩
  · exact .inr ⟨Nat.le_of_not_lt ‹_›, rfl⟩

@[simp] theorem report_total (p : Progress) (value : Nat) : (p.report value).total = p.total := by
  rcases report_cases p value with ⟨-, h⟩ | ⟨-, h⟩
  · rw [h]
  · rw [h]

@[simp] theorem reportAll_total (p : Progress) (values : List Nat) :
    (p.reportAll values).total = p.total := by
  induction values generalizing p with
  | nil => rfl
  | cons value values ih => exact (ih _).trans (report_total p value)

theorem reportAll_append (p : Progress) (values values' : List Nat) :
    p.reportAll (values ++ values') = (p.reportAll values).reportAll values' :=
  List.foldl_append

/-- The reports made so far rise by the interval at least, up to what has been reported. -/
structure Spaced (p : Progress) (done : List Nat) : Prop where
  reports_eq : p.reports.toList = done.map (·, p.total)
  apart : done.Pairwise fun a b => a + interval ≤ b
  le_next : ∀ a ∈ done, a + interval ≤ p.next
  /-- Each report takes up one interval below the next one. -/
  length_le : interval * done.length ≤ p.next
  next_le : p.next ≤ p.reported + interval
  reported_le : p.reported ≤ p.total
  reported_mem : p.next = 0 ∨ p.reported ∈ done

theorem spaced_start (total : Nat) : Spaced { total } [] where
  reports_eq := rfl
  apart := .nil
  le_next := fun _ h => absurd h List.not_mem_nil
  length_le := Nat.le_refl _
  next_le := Nat.zero_le _
  reported_le := Nat.zero_le _
  reported_mem := .inl rfl

/-- **A report keeps the reports spaced**, and shows its value up to an interval. -/
theorem Spaced.report (h : Spaced p done) (value : Nat) :
    ∃ done', Spaced (p.report value) done' ∧ done <+: done' ∧
      ∃ a ∈ done', min value p.total < a + interval := by
  obtain ⟨hreports, hapart, hnext, hlength, hnextLe, hreported, hmem⟩ := h
  rcases report_cases p value with ⟨hclose, heq⟩ | ⟨hfar, heq⟩
  · -- What has been reported last is near the value.
    have hlast : p.reported ∈ done := hmem.resolve_left (by omega)
    rw [heq]
    exact ⟨done, ⟨hreports, hapart, hnext, hlength, hnextLe, hreported, hmem⟩,
      List.prefix_refl _, p.reported, hlast, by omega⟩
  · rw [heq]
    generalize hvalue : max (min value p.total) p.reported = made at *
    have hmade : made ≤ p.total := by omega
    refine ⟨done ++ [made], ⟨?_, ?_, ?_, ?_, ?_, ?_, ?_⟩, List.prefix_append _ _, made, by simp, ?_⟩
    · simp [hreports]
    · rw [List.pairwise_append]
      refine ⟨hapart, List.pairwise_singleton _ _, fun a ha b hb => ?_⟩
      obtain rfl := List.mem_singleton.1 hb
      exact Nat.le_trans (hnext a ha) hfar
    · intro a ha
      rcases List.mem_append.1 ha with ha | ha
      · have := hnext a ha
        show a + interval ≤ made + interval
        omega
      · exact Nat.le_of_eq (congrArg (· + interval) (List.mem_singleton.1 ha))
    · rw [List.length_append, List.length_singleton, Nat.mul_add, Nat.mul_one]
      show _ ≤ made + interval
      omega
    · exact Nat.le_refl _
    · exact hmade
    · exact .inr (by simp)
    · have : 0 < interval := by decide
      omega

/-- **Any number of reports are spaced**, and show each value up to an interval. -/
theorem Spaced.reportAll (h : Spaced p done) (values : List Nat) :
    ∃ done', Spaced (p.reportAll values) done' ∧ done <+: done' ∧
      ∀ value ∈ values, ∃ a ∈ done', min value p.total < a + interval := by
  induction values generalizing p done with
  | nil => exact ⟨done, h, List.prefix_refl _, fun _ hv => absurd hv List.not_mem_nil⟩
  | cons value values ih =>
    obtain ⟨first, hfirst, hprefix, a, ha, hnear⟩ := h.report value
    obtain ⟨done', hspaced, hprefix', hall⟩ := ih hfirst
    refine ⟨done', hspaced, hprefix.trans hprefix', fun v hv => ?_⟩
    rcases List.mem_cons.1 hv with rfl | hv
    · exact ⟨a, hprefix'.subset ha, hnear⟩
    · obtain ⟨b, hb, hnear⟩ := hall v hv
      exact ⟨b, hb, by rwa [report_total] at hnear⟩

/-- What has been reported is within the total. -/
theorem Spaced.le_total (h : Spaced p done) {a : Nat} (ha : a ∈ done) : a ≤ p.total := by
  have := h.le_next a ha
  have := h.next_le
  have := h.reported_le
  omega

/-- **There are few reports**: one for each interval of the total, and one more. -/
theorem Spaced.length_le_div (h : Spaced p done) : done.length ≤ p.total / interval + 1 := by
  have hlength := h.length_le
  have hnext := h.next_le
  have hreported := h.reported_le
  have hpos : 0 < interval := by decide
  have hle : done.length * interval ≤ p.total + interval := by
    rw [Nat.mul_comm]
    omega
  rw [← Nat.add_div_right _ hpos]
  exact (Nat.le_div_iff_mul_le hpos).2 hle

end Progress
end Disassembly
