/-
# The listed directives of a program

A program has directives from three sources: texts given inline, files of directives, and built-in
programs over ranges (`mem_loadDirectives`). The list of them that a command writes is a file of
directives itself. It is read back as the same list exactly if no directive given inline ends with a
carriage return (`parseFile_listing_iff`), because reading a file takes carriage returns off the ends
of its lines. Directives from files have lost theirs already, and no built-in program has one. The
ranges of built-in programs are taken as they are given, here not to end before they start.
-/

import Disassembly.Command.Run
import Disassembly.Proofs.Directive.File

namespace Disassembly

/-- A composed computation that reads from fixed files ends well only if both its parts do. -/
theorem exists_ok_of_run_bind {ε α β : Type} {x : ExceptT ε Id α} {f : α → ExceptT ε Id β} {b : β}
    (h : (x >>= f).run = .ok b) : ∃ a, x.run = .ok a ∧ (f a).run = .ok b := by
  rw [ExceptT.run_bind] at h
  cases hx : x.run with
  | error e =>
    rw [hx] at h
    exact absurd h (by simp [pure, bind])
  | ok a =>
    rw [hx] at h
    exact ⟨a, rfl, h⟩

/-- Computations that read from fixed files are run one after the other. -/
theorem run_mapM {ε α β : Type} (f : α → ExceptT ε Id β) (xs : List α) :
    (xs.mapM f).run = List.mapM (m := Except ε) (fun x => (f x).run) xs := by
  induction xs with
  | nil => rfl
  | cons x xs ih =>
    rw [List.mapM_cons, List.mapM_cons, ← ih, ExceptT.run_bind]
    cases (f x).run with
    | error e => rfl
    | ok y =>
      change ((xs.mapM f) >>= fun ys => pure (y :: ys)).run = _
      rw [ExceptT.run_bind]
      cases (xs.mapM f).run with
      | error e => rfl
      | ok ys => rfl

namespace PresetBlock

open Directive

/-- No built-in program has a carriage return. -/
theorem return_not_mem_program : ∀ preset ∈ Preset.all, '\r' ∉ preset.program.toList := by
  simp only [Preset.all, List.forall_mem_cons, String.toList_append, List.mem_append, not_or]
  repeat' apply And.intro
  all_goals decide +kernel

/-- The directive of a preset has the range of the preset, and ends with no carriage return. -/
theorem directive_eq_ok {b : PresetBlock} {d : Directive} (h : b.directive = .ok d) :
    d.first = b.first ∧ d.last = b.last ∧ ¬EndsInReturn d := by
  unfold directive at h
  split at h
  · rename_i preset hname
    obtain rfl := Except.ok.inj h
    have hprogram : (flat preset.program.toList).getLast? ≠ some '\r' := by
      intro hlast
      have hmem : '\r' ∈ flat preset.program.toList := List.mem_of_getLast? hlast
      exact return_not_mem_program preset (List.mem_of_find?_eq_some hname)
        (List.mem_of_mem_filter hmem)
    rw [endsInReturn_iff]
    unfold Preset.directive
    cases preset.kind with
    | data => exact ⟨rfl, rfl, hprogram⟩
    | pattern => exact ⟨rfl, rfl, hprogram⟩
  · exact absurd h (by simp)

end PresetBlock

namespace Program

open Directive

variable {files : String → Except FileError String} {p : Program} {root : String}
  {ds : List Directive} {d : Directive}

/-- Directives that are loaded from a file are those in its text. -/
theorem fileDirectives_eq_ok {path : String}
    (h : (fileDirectives (m := Id) files path).run = .ok ds) :
    ∃ text, parseFile text = .ok ds := by
  unfold fileDirectives at h
  obtain ⟨found, hfound, h⟩ := exists_ok_of_run_bind h
  obtain rfl : files path = found := Except.ok.inj hfound
  cases htext : files path with
  | error e =>
    rw [htext] at h
    exact absurd h (by simp [throw, throwThe, MonadExceptOf.throw])
  | ok text =>
    rw [htext] at h
    simp only at h
    cases hparse : parseFile text with
    | error e =>
      rw [hparse] at h
      exact absurd h (by simp [throw, throwThe, MonadExceptOf.throw])
    | ok es =>
      rw [hparse] at h
      obtain rfl := Except.ok.inj h
      exact ⟨text, hparse⟩

/-- **The directives of a program, by their sources**: those given inline, those in its files and
those of its presets. -/
structure LoadsFrom [Path.Resolver] (files : String → Except FileError String) (root : String)
    (p : Program) (inlined fromFiles fromPresets : List Directive) : Prop where
  inlined : p.directives.mapM parse = .ok inlined
  files : ∃ found, p.directiveFiles.mapM (m := Except Failure)
    (fun path => (fileDirectives (m := Id) files (Path.Resolver.toPath root path)).run) =
      .ok found ∧ found.flatten = fromFiles
  presets : p.presets.mapM PresetBlock.directive = .ok fromPresets

theorem inlineDirectives_eq_ok : p.inlineDirectives = .ok ds ↔ p.directives.mapM parse = .ok ds := by
  unfold inlineDirectives
  cases p.directives.mapM parse <;> simp [Except.mapError]

/-- **A program loads what it has inline, in its files and in its presets, in this order.** -/
theorem loadDirectives_eq_ok_iff [Path.Resolver] :
    (p.loadDirectives (m := Id) files root).run = .ok ds ↔
      ∃ inlined fromFiles fromPresets, p.LoadsFrom files root inlined fromFiles fromPresets ∧
        ds = inlined ++ fromFiles ++ fromPresets := by
  constructor
  · intro h
    obtain ⟨inlined, hinlined, h⟩ := exists_ok_of_run_bind h
    obtain ⟨found, hfound, h⟩ := exists_ok_of_run_bind h
    obtain ⟨fromPresets, hpresets, h⟩ := exists_ok_of_run_bind h
    obtain rfl := Except.ok.inj h
    rw [run_mapM] at hfound
    exact ⟨inlined, found.flatten, fromPresets,
      ⟨inlineDirectives_eq_ok.1 hinlined, ⟨found, hfound, rfl⟩, hpresets⟩, rfl⟩
  · rintro ⟨inlined, _, fromPresets, ⟨hinlined, ⟨found, hfound, rfl⟩, hpresets⟩, rfl⟩
    rw [← run_mapM] at hfound
    unfold loadDirectives
    rw [ExceptT.run_bind, ExceptT.run_mk, inlineDirectives_eq_ok.2 hinlined]
    change (_ >>= _ : ExceptT Failure Id (List Directive)).run = _
    rw [ExceptT.run_bind, hfound]
    change (_ >>= _ : ExceptT Failure Id (List Directive)).run = _
    rw [ExceptT.run_bind, ExceptT.run_mk, hpresets]
    rfl

/-- **Where a directive of a program comes from.** -/
theorem mem_loadDirectives [Path.Resolver]
    (h : (p.loadDirectives (m := Id) files root).run = .ok ds) (hd : d ∈ ds) :
    (∃ text ∈ p.directives, parse text = .ok d) ∨
      (∃ text, ∃ line ∈ fileLines text, parse line = .ok d) ∨
      ∃ b ∈ p.presets, b.directive = .ok d := by
  obtain ⟨inlined, _, fromPresets, ⟨hinlined, ⟨found, hfound, rfl⟩, hpresets⟩, rfl⟩ :=
    loadDirectives_eq_ok_iff.1 h
  rw [List.mem_append, List.mem_append, List.mem_flatten] at hd
  rcases hd with (hd | ⟨es, hes, hd⟩) | hd
  · exact .inl ((mem_iff_of_mapM hinlined).1 hd)
  · obtain ⟨path, -, hload⟩ := (mem_iff_of_mapM hfound).1 hes
    obtain ⟨text, htext⟩ := fileDirectives_eq_ok hload
    exact .inr (.inl ⟨text, (mem_iff_of_mapM htext).1 hd⟩)
  · exact .inr (.inr ((mem_iff_of_mapM hpresets).1 hd))

/-- A directive that is given inline is a directive of the program. -/
theorem mem_loadDirectives_of_inline [Path.Resolver]
    (h : (p.loadDirectives (m := Id) files root).run = .ok ds) {text : String}
    (htext : text ∈ p.directives) (hd : parse text = .ok d) : d ∈ ds := by
  obtain ⟨inlined, fromFiles, fromPresets, hload, rfl⟩ := loadDirectives_eq_ok_iff.1 h
  have hmem : d ∈ inlined := (mem_iff_of_mapM hload.inlined).2 ⟨text, htext, hd⟩
  exact List.mem_append_left _ (List.mem_append_left _ hmem)

/-- A directive has a range that does not end before it starts, if this is so for presets. -/
theorem range_of_mem_loadDirectives [Path.Resolver]
    (h : (p.loadDirectives (m := Id) files root).run = .ok ds)
    (hpresets : ∀ b ∈ p.presets, b.first ≤ b.last) (hd : d ∈ ds) : d.first ≤ d.last := by
  rcases mem_loadDirectives h hd with ⟨text, -, hparse⟩ | ⟨_, text, -, hparse⟩ | ⟨b, hb, hpreset⟩
  · exact (read_eq_ok (parse_eq_ok_iff.1 hparse)).1
  · exact (read_eq_ok (parse_eq_ok_iff.1 hparse)).1
  · obtain ⟨hfirst, hlast, -⟩ := PresetBlock.directive_eq_ok hpreset
    rw [hfirst, hlast]
    exact hpresets b hb

/-- **The list of the directives of a program is read back as the same list exactly if no directive
that is given inline ends with a carriage return.** The ranges of presets do not end before they
start, and like every text in memory a payload is shorter than `2 ^ 64` bytes. -/
theorem parseFile_listing_iff [Path.Resolver]
    (h : (p.loadDirectives (m := Id) files root).run = .ok ds)
    (hpresets : ∀ b ∈ p.presets, b.first ≤ b.last)
    (hsize : ∀ d ∈ ds, Text.byteLength d.payload.toList ≤ 0xFFFFFFFFFFFFFFFF) :
    parseFile (String.join ((sort ds).map (Command.directiveLine false))) = .ok (sort ds) ↔
      ∀ text ∈ p.directives, ∀ d, parse text = .ok d → ¬EndsInReturn d := by
  have hmem (d : Directive) : d ∈ sort ds ↔ d ∈ ds := List.mem_mergeSort
  have hlist : parseFile (fileText (sort ds)) = .ok (sort ds) ↔ ∀ d ∈ sort ds, ¬EndsInReturn d :=
    parseFile_fileText_iff
      (fun d hd => range_of_mem_loadDirectives h hpresets ((hmem d).1 hd))
      (fun d hd => hsize d ((hmem d).1 hd))
  refine hlist.trans ?_
  constructor
  · intro hnone text htext d hparse
    exact hnone d ((hmem d).2 (mem_loadDirectives_of_inline h htext hparse))
  · intro hinline d hd
    rcases mem_loadDirectives h ((hmem d).1 hd) with
      ⟨text, htext, hparse⟩ | ⟨_, line, hline, hparse⟩ | ⟨b, -, hpreset⟩
    · exact hinline text htext d hparse
    · exact not_endsInReturn_of_mem_fileLines hline hparse
    · exact (PresetBlock.directive_eq_ok hpreset).2.2

/-- A program with a comment given inline, whose payload has a line feed behind a carriage return, a
file with lines that end with carriage returns, and a preset. -/
def listingSample : Program :=
  { directives := ["0400#8000#8000#5#late\rx"]
    directiveFiles := ["notes"]
    presets := [⟨"words", 0x8000, 0x8003⟩] }

/-- The file of the sample. -/
def listingSampleFiles (_ : String) : Except FileError String :=
  .ok "; notes\r\n0411#8001#8002##80a0stop\r\r\n"

/-- Its three directives are read back in the order of their ranges. -/
theorem parseFile_listing_iff_sample :
    ∃ ds, (listingSample.loadDirectives (m := Id) listingSampleFiles "").run = .ok ds ∧
      ds.length = 3 ∧
      parseFile (String.join ((sort ds).map (Command.directiveLine false))) = .ok (sort ds) := by
  let ds : List Directive :=
    [⟨0x8000, 0x8000, .comment .before "late\r\nx"⟩,
      ⟨0x8001, 0x8002, .reference .endOfLine .address 0x80A0 "stop"⟩,
      ⟨0x8000, 0x8003, .dataBlock "%PWordDump()"⟩]
  have hrun : ((listingSample.loadDirectives (m := Id) listingSampleFiles "").run.toOption).map id =
      some ds := by decide +kernel
  obtain ⟨_, hload, rfl⟩ := exists_ok_of_toOption_map hrun
  refine ⟨ds, hload, rfl, (parseFile_listing_iff hload ?_ ?_).2 ?_⟩
  · decide
  · decide +kernel
  · intro text htext d hparse
    obtain rfl := List.mem_singleton.1 htext
    have hd : ((parse "0400#8000#8000#5#late\rx").toOption.map fun d => decide (EndsInReturn d)) =
        some false := by decide +kernel
    rw [hparse] at hd
    exact of_decide_eq_false (Option.some.inj hd)

/-- **A carriage return at the end of a directive is lost.** -/
theorem parseFile_listing_return :
    ∃ ds, (loadDirectives (m := Id) (fun _ => .error .notFound)
        { directives := ["0400#8000#8000##late\r"] } "").run = .ok ds ∧
      parseFile (String.join ((sort ds).map (Command.directiveLine false))) ≠ .ok (sort ds) := by
  let d : Directive := ⟨0x8000, 0x8000, .comment .before "late\r"⟩
  have hrun : ((loadDirectives (m := Id) (fun _ => .error .notFound)
      { directives := ["0400#8000#8000##late\r"] } "").run.toOption).map id = some [d] := by
    decide +kernel
  obtain ⟨_, hload, rfl⟩ := exists_ok_of_toOption_map hrun
  have hread : (parseFile (String.join [Command.directiveLine false d])).toOption ≠ some [d] := by
    decide +kernel
  refine ⟨[d], hload, fun h => hread ?_⟩
  rw [sort, List.mergeSort_singleton, List.map_singleton] at h
  rw [h]
  rfl

end Program
end Disassembly
