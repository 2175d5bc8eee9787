/-
# The addresses of a listing

A disassembly walks through the window once and writes the labels afterwards, when every reference
is known. Together the two passes show the addresses that are asked for (`disassemble_addresses`):
all, none, or those that something in the listing refers to, before or after, and those that follow
a long enough run of hidden ones.
-/

import Disassembly.Disassemble
import Disassembly.Proofs.Labels.HiddenRuns
import Disassembly.Proofs.Walk.Record

namespace Disassembly

open Walk (Event Walked)

/-- Whether the text is a listing of these rows. -/
def IsListing (format : ListingFormat) (rows : List Labels.Row) (text : String) : Prop :=
  text = format.opening ++
    String.join (rows.map fun (line, column) => Labels.lineText format column line) ++
    format.closing

/-- **The addresses that are asked for are shown, and no others.** A disassembly that succeeds has a
history and lists the lines that the walk left, each with an address column. The code lines are those
of the instructions in the history, and a marker says whether its line is code or data. A line with a
marker shows its address exactly if the policy of the line is to show all; or if it is to show what
is referred to, and the address is referred to anywhere in the history or comes behind a run of
hidden addresses of its kind as long as its period. -/
theorem disassemble_addresses (m : Machine) (directives : List Directive) (defaults : Scope)
    {p : Progress} {text : String} (h : disassemble m directives defaults = (p, .ok text)) :
    ∃ w events rows, Walked m m.image.origin.toNat
        (.start (baseScope defaults directives) (scopedDirectives directives)) events w ∧
      rows.map Prod.fst = w.lines.toList ∧
      IsListing (listingFormat (baseScope defaults directives)) rows text ∧
      (w.lines.toList.filter Line.isCode).map Line.bare = events.filterMap Event.line? ∧
      (∀ line ∈ w.lines.toList, line.IsMarkedRight) ∧
      ∀ before row after, rows = before ++ row :: after →
        Labels.IsLabelled (fun a => ∃ e ∈ events, e.RefersTo a) before row := by
  unfold disassemble at h
  simp only at h
  split at h
  · exact absurd (Prod.mk.inj h).2 (by simp)
  · rename_i w hwalk
    obtain rfl := Except.ok.inj (Prod.mk.inj h).2
    obtain ⟨events, hwalked⟩ := Walk.walked_of_walk hwalk
    obtain ⟨hreferences, added, hlines, hcode, hmarked⟩ := hwalked.leaves
    obtain rfl : w.lines.toList = added := hlines
    refine ⟨w, events, w.lines.toList.zip (Labels.columns w.references {} w.lines.toList), hwalked,
      ?_, ?_, hcode, hmarked, fun before row after hrows => ?_⟩
    · exact List.map_fst_zip (Nat.le_of_eq (Labels.length_columns _ _ _).symm)
    · rw [IsListing, Labels.listing, List.zip, List.map_zipWith, List.zipWith_comm]
    · have hreferred (a : UInt16) : a ∈ w.references ↔ ∃ e ∈ events, e.RefersTo a := by
        rw [hreferences a]
        exact or_iff_right Std.TreeSet.not_mem_emptyc
      have hrow := Labels.counts_nil.columns hreferred w.lines.toList hrows
      rwa [List.nil_append] at hrow

/-- In a listing of a jump, three instructions that do nothing, a return and a block whose script
writes an address, the address that is written, the one behind a hidden one and the target of the
jump are shown. -/
theorem disassemble_addresses_sample :
    let m : Machine := ⟨⟨#[0xC3, 0x06, 0x80, 0x00, 0x00, 0x00, 0xC9, 0x12, 0x34], 0, 0x8000, 9,
      by decide, by decide⟩, Spectrum.charset, Spectrum.floats⟩
    let block : Directive := ⟨0x8007, 0x8008, .dataBlock "%S%AC08003%E"⟩
    let defaults : Scope := { labels := .referenced, labelPeriod := 1 }
    let text := "      JP #8006\n8003  NOP\n      NOP\n8005  NOP\n8006  RET\n      #8003\n"
    (disassemble m [block] defaults).2.toOption = some text ∧
      ∃ w events rows, Walked m 0x8000 (.start defaults [block]) events w ∧
        rows.map Prod.fst = w.lines.toList ∧ IsListing PlainText.format rows text ∧
        ∀ before row after, rows = before ++ row :: after →
          Labels.IsLabelled (fun a => ∃ e ∈ events, e.RefersTo a) before row := by
  intro m block defaults text
  have hlisting : (disassemble m [block] defaults).2.toOption = some text := by
    decide +kernel
  refine ⟨hlisting, ?_⟩
  cases h : disassemble m [block] defaults with
  | mk p result =>
    rw [h] at hlisting
    cases result with
    | error e => exact absurd hlisting (by simp [Except.toOption])
    | ok text' =>
      obtain rfl : text' = text := Option.some.inj hlisting
      obtain ⟨w, events, rows, hwalked, hlines, htext, -, -, hrows⟩ :=
        disassemble_addresses m [block] defaults h
      exact ⟨w, events, rows, hwalked, hlines, htext, hrows⟩

end Disassembly
