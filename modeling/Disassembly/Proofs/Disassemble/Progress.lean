/-
# The progress of a disassembly

A disassembly reports its progress in two passes with different units: the walk reports how far the
cursor has come in the window, and the labels report how many lines are written, counted from half
of the total on and up to the total at most. The reports of both are those of one run of reports
(`disassemble_reports`), out of twice the length of the window, whatever number of lines there is.
-/

import Disassembly.Disassemble
import Disassembly.Proofs.Progress.Reports
import Disassembly.Proofs.Walk.History

namespace Disassembly

open Progress (reportAll)

/-! ### The two passes -/

/-- **A walk reports the offsets of its stops**, which rise. The induction is on the steps. -/
theorem Walk.walkFrom_reports (m : Machine) (steps cursor : Nat) (w : Walk) (p : Progress) :
    ∃ cursors : List Nat,
      (walkFrom m steps cursor w p).1 =
          p.reportAll (cursors.map fun c => c - m.image.origin.toNat) ∧
        cursors.Pairwise (· < ·) ∧ ∀ c ∈ cursors, cursor ≤ c ∧ c < m.image.stop := by
  induction steps generalizing cursor w p with
  | zero => exact ⟨[], rfl, .nil, fun _ h => absurd h List.not_mem_nil⟩
  | succ steps ih =>
    rw [walkFrom]
    split
    · rename_i hcursor
      cases hstep : w.step m cursor with
      | error e => exact ⟨[cursor], rfl, List.pairwise_singleton _ _, by simp [hcursor]⟩
      | ok r =>
        obtain ⟨next, u⟩ := r
        obtain ⟨events, hstopped⟩ := stopped_of_step hstep
        have hnext := hstopped.lt
        obtain ⟨cursors, hreports, hrise, hrange⟩ :=
          ih next u (p.report (cursor - m.image.origin.toNat))
        refine ⟨cursor :: cursors, hreports, ?_, ?_⟩
        · refine List.pairwise_cons.2 ⟨fun c hc => ?_, hrise⟩
          have := hrange c hc
          omega
        · intro c hc
          rcases List.mem_cons.1 hc with rfl | hc
          · exact ⟨Nat.le_refl _, hcursor⟩
          · have := hrange c hc
            omega
    · exact ⟨[], rfl, .nil, fun _ h => absurd h List.not_mem_nil⟩

/-- The labels report each line, from half of the total on. -/
theorem Labels.progress_eq (p : Progress) (lines : Nat) :
    progress p lines =
      p.reportAll ((List.range lines).map fun i => p.total / 2 + min i (p.total / 2)) := by
  have hfold (indices : List Nat) (q : Progress) (hq : q.total = p.total) :
      indices.foldl (fun q i => q.report (q.total / 2 + min i (q.total / 2))) q =
        q.reportAll (indices.map fun i => p.total / 2 + min i (p.total / 2)) := by
    induction indices generalizing q with
    | nil => rfl
    | cons i indices ih =>
      rw [List.foldl_cons, ih _ ((Progress.report_total _ _).trans hq), hq]
      rfl
  exact hfold _ p rfl

/-- **Progress reports are spaced, few and end with the total, and a disassembly makes such reports.**
Any values that are reported out of a total, followed by the report that everything is done, make
reports that rise by 256 at least, but for the last one, which is the total. They stay within it, so
there are no more than `total / 256 + 2` of them, and each value is shown up to 256. The reports of
a disassembly that succeeds are those of the offsets of its stops and, past half of the total, of the
numbers of its lines, out of twice the length of the window. -/
theorem disassemble_reports :
    (∀ total values, ∃ done : List Nat,
      (Progress.run total values).reports.toList = (done ++ [total]).map (·, total) ∧
        done.Pairwise (fun a b => a + 256 ≤ b) ∧
        (done ++ [total]).Pairwise (· ≤ ·) ∧
        (∀ a ∈ done, a ≤ total) ∧
        (done ++ [total]).length ≤ total / 256 + 2 ∧
        ∀ value ∈ values, ∃ a ∈ done, min value total < a + 256) ∧
      ∀ m directives defaults p text, disassemble m directives defaults = (p, .ok text) →
        ∃ (w : Walk) (cursors : List Nat),
          (Walk.walk m (.start (baseScope defaults directives) (scopedDirectives directives))
            { total := 2 * m.image.length }).2 = .ok w ∧
          cursors.Pairwise (· < ·) ∧
          (∀ c ∈ cursors, m.image.origin.toNat ≤ c ∧ c < m.image.stop) ∧
          p = Progress.run (2 * m.image.length)
            (cursors.map (fun c => c - m.image.origin.toNat) ++
              (List.range w.lines.size).map fun i => m.image.length + min i m.image.length) := by
  constructor
  · intro total values
    obtain ⟨done, hspaced, -, hshown⟩ := (Progress.spaced_start total).reportAll values
    have htotal : (reportAll { total } values).total = total := Progress.reportAll_total _ _
    have hle (a : Nat) (ha : a ∈ done) : a ≤ total := htotal ▸ hspaced.le_total ha
    refine ⟨done, ?_, hspaced.apart, ?_, hle, ?_, hshown⟩
    · simp [Progress.run, Progress.finish, hspaced.reports_eq]
    · rw [List.pairwise_append]
      refine ⟨hspaced.apart.imp fun h => Nat.le_of_add_right_le h, List.pairwise_singleton _ _, ?_⟩
      intro a ha b hb
      exact List.mem_singleton.1 hb ▸ hle a ha
    · have hlength := hspaced.length_le_div
      rw [htotal] at hlength
      rw [List.length_append, List.length_singleton]
      exact Nat.succ_le_succ hlength
  · intro m directives defaults p text h
    unfold disassemble at h
    simp only at h
    split at h
    · exact absurd (Prod.mk.inj h).2 (by simp)
    · rename_i w hwalk
      obtain ⟨cursors, hreports, hrise, hrange⟩ := Walk.walkFrom_reports m m.image.length
        m.image.origin.toNat
        (.start (baseScope defaults directives) (scopedDirectives directives))
        { total := 2 * m.image.length }
      refine ⟨w, cursors, hwalk, hrise, hrange, ?_⟩
      obtain rfl := (Prod.mk.inj h).1
      have hhalf : 2 * m.image.length / 2 = m.image.length := by omega
      rw [Progress.run, Progress.reportAll_append, ← hreports, Labels.progress_eq, Walk.walk,
        hreports, Progress.reportAll_total, hhalf]

/-- A block of one byte with eight lines, six of them blank, is reported out of two all the same. -/
theorem disassemble_reports_blankLines :
    let m : Machine := ⟨⟨#[0x41], 0, 0x8000, 1, by decide, by decide⟩, Spectrum.charset,
      Spectrum.floats⟩
    let block : Directive := ⟨0x8000, 0x8000, .dataBlock "%F30%B2F%E%S%E"⟩
    let text := "8000  #41\n\n\n\n8001  \n\n\n\n"
    (disassemble m [block] {}).2.toOption = some text ∧
      (disassemble m [block] {}).1.reports = #[(0, 2), (2, 2)] ∧
      ∃ (w : Walk) (cursors : List Nat),
        (Walk.walk m (.start {} [block]) { total := 2 }).2 = .ok w ∧
        (disassemble m [block] {}).1 = Progress.run 2 (cursors.map (fun c => c - 0x8000) ++
          (List.range w.lines.size).map fun i => 1 + min i 1) := by
  intro m block text
  have hlisting : (disassemble m [block] {}).2.toOption = some text := by decide +kernel
  refine ⟨hlisting, by decide +kernel, ?_⟩
  cases h : disassemble m [block] {} with
  | mk p result =>
    rw [h] at hlisting
    cases result with
    | error e => exact absurd hlisting (by simp [Except.toOption])
    | ok text' =>
      obtain ⟨w, cursors, hwalk, -, -, hreports⟩ := disassemble_reports.2 m [block] {} p text' h
      exact ⟨w, cursors, hwalk, hreports⟩

end Disassembly
