/-
# Overrides compose

Settings are laid over each other in any number of layers. Laying one override of formatting options
over another and then over a scope is the same as laying one after the other over the scope
(`Scope.Override.apply_merge`). Overrides, and whole programs, can be joined in any grouping, and the
one that sets nothing changes nothing. Joined programs load the directives of both, each source of
directives with those of the first program before those of the second (`Program.loadsFrom_merge_iff`).
-/

import Disassembly.Proofs.Project.Listing

namespace Disassembly
namespace Scope
namespace Override

/-- **Joined overrides act one after the other.** -/
theorem apply_merge (a b : Override) (s : Scope) : (a.merge b).apply s = b.apply (a.apply s) := by
  simp only [apply, merge, Option.getD_or, Option.or_assoc]

theorem merge_assoc (a b c : Override) : (a.merge b).merge c = a.merge (b.merge c) := by
  simp only [merge, Option.or_assoc]

@[simp] theorem merge_empty (a : Override) : a.merge {} = a := by
  simp only [merge, Option.none_or]

@[simp] theorem empty_merge (a : Override) : merge {} a = a := by
  simp only [merge, Option.or_none]

end Override
end Scope

namespace Program

theorem merge_assoc (p q r : Program) : (p.merge q).merge r = p.merge (q.merge r) := by
  simp only [merge, Option.or_assoc, Scope.Override.merge_assoc, List.append_assoc]

theorem merge_empty (p : Program) : p.merge {} = p := by
  simp only [merge, Option.none_or, Scope.Override.merge_empty, List.append_nil]

theorem empty_merge (p : Program) : merge {} p = p := by
  simp only [merge, Option.or_none, Scope.Override.empty_merge, List.nil_append]

/-! ### Directives of joined programs -/

variable {files : String → Except FileError String} {root : String} {p q : Program}
  {ds es : List Directive}

/-- What is read from two lists, one behind the other, is read from each of them. -/
theorem mapM_append_eq_ok_iff {ε α β : Type} {f : α → Except ε β} {xs ys : List α} {zs : List β} :
    (xs ++ ys).mapM f = .ok zs ↔
      ∃ as bs, xs.mapM f = .ok as ∧ ys.mapM f = .ok bs ∧ zs = as ++ bs := by
  rw [List.mapM_append]
  cases xs.mapM f with
  | error e => simp [bind, Except.bind]
  | ok as =>
    cases ys.mapM f with
    | error e => simp [bind, Except.bind]
    | ok bs => simp [bind, Except.bind, pure, Except.pure, eq_comm]

/-- **Joined programs load from each source what the first loads from it, then what the second does.**
-/
theorem loadsFrom_merge_iff [Path.Resolver] {inlined fromFiles fromPresets : List Directive} :
    (p.merge q).LoadsFrom files root inlined fromFiles fromPresets ↔
      ∃ i f b i' f' b', p.LoadsFrom files root i f b ∧ q.LoadsFrom files root i' f' b' ∧
        inlined = i ++ i' ∧ fromFiles = f ++ f' ∧ fromPresets = b ++ b' := by
  constructor
  · rintro ⟨hinlined, ⟨found, hfound, rfl⟩, hpresets⟩
    obtain ⟨i, i', hi, hi', rfl⟩ := mapM_append_eq_ok_iff.1 hinlined
    obtain ⟨f, f', hf, hf', rfl⟩ := mapM_append_eq_ok_iff.1 hfound
    obtain ⟨b, b', hb, hb', rfl⟩ := mapM_append_eq_ok_iff.1 hpresets
    exact ⟨i, f.flatten, b, i', f'.flatten, b', ⟨hi, ⟨f, hf, rfl⟩, hb⟩, ⟨hi', ⟨f', hf', rfl⟩, hb'⟩,
      rfl, List.flatten_append, rfl⟩
  · rintro ⟨i, _, b, i', _, b', ⟨hi, ⟨f, hf, rfl⟩, hb⟩, ⟨hi', ⟨f', hf', rfl⟩, hb'⟩, rfl, rfl, rfl⟩
    exact ⟨mapM_append_eq_ok_iff.2 ⟨i, i', hi, hi', rfl⟩,
      ⟨f ++ f', mapM_append_eq_ok_iff.2 ⟨f, f', hf, hf', rfl⟩, List.flatten_append⟩,
      mapM_append_eq_ok_iff.2 ⟨b, b', hb, hb', rfl⟩⟩

/-- Parts of two lists, put together part by part, hold what the two lists hold. -/
theorem perm_append_parts {α : Type} (i f b i' f' b' : List α) :
    (i ++ i' ++ (f ++ f') ++ (b ++ b')).Perm (i ++ f ++ b ++ (i' ++ f' ++ b')) := by
  classical
  rw [List.perm_iff_count]
  intro a
  simp only [List.count_append]
  omega

/-- Two programs that load their directives can be joined, and then load from each source the
directives of the first and those of the second, which are the directives of both. -/
theorem loadDirectives_merge [Path.Resolver]
    (hp : (p.loadDirectives (m := Id) files root).run = .ok ds)
    (hq : (q.loadDirectives (m := Id) files root).run = .ok es) :
    ∃ i f b i' f' b', p.LoadsFrom files root i f b ∧ ds = i ++ f ++ b ∧
      q.LoadsFrom files root i' f' b' ∧ es = i' ++ f' ++ b' ∧
      ((p.merge q).loadDirectives (m := Id) files root).run =
        .ok (i ++ i' ++ (f ++ f') ++ (b ++ b')) ∧
      (i ++ i' ++ (f ++ f') ++ (b ++ b')).Perm (ds ++ es) := by
  obtain ⟨i, f, b, hload, rfl⟩ := loadDirectives_eq_ok_iff.1 hp
  obtain ⟨i', f', b', hload', rfl⟩ := loadDirectives_eq_ok_iff.1 hq
  have hmerge : (p.merge q).LoadsFrom files root (i ++ i') (f ++ f') (b ++ b') :=
    loadsFrom_merge_iff.2 ⟨i, f, b, i', f', b', hload, hload', rfl, rfl, rfl⟩
  exact ⟨i, f, b, i', f', b', hload, rfl, hload', rfl,
    loadDirectives_eq_ok_iff.2 ⟨_, _, _, hmerge, rfl⟩, perm_append_parts i f b i' f' b'⟩

/-- **Overrides compose.** Joined overrides act on a scope one after the other. Joining is associative
for overrides and for programs, and the override or program that sets nothing is its identity on both
sides. If two programs load their directives, then so does the joined program: those given inline, of
the first and then of the second, those in files, and those of presets. The paths of files are
resolved in any way, and files are read as the same texts each time. -/
theorem overrides_compose :
    (∀ (a b : Scope.Override) (s : Scope), (a.merge b).apply s = b.apply (a.apply s)) ∧
      (∀ a b c : Scope.Override, (a.merge b).merge c = a.merge (b.merge c)) ∧
      (∀ a : Scope.Override, a.merge {} = a ∧ Scope.Override.merge {} a = a) ∧
      (∀ p q r : Program, (p.merge q).merge r = p.merge (q.merge r)) ∧
      (∀ p : Program, p.merge {} = p ∧ merge {} p = p) ∧
      ∀ [Path.Resolver] (files : String → Except FileError String) (root : String)
        (p q : Program) (ds es : List Directive),
        (p.loadDirectives (m := Id) files root).run = .ok ds →
        (q.loadDirectives (m := Id) files root).run = .ok es →
        ∃ i f b i' f' b', p.LoadsFrom files root i f b ∧ ds = i ++ f ++ b ∧
          q.LoadsFrom files root i' f' b' ∧ es = i' ++ f' ++ b' ∧
          ((p.merge q).loadDirectives (m := Id) files root).run =
            .ok (i ++ i' ++ (f ++ f') ++ (b ++ b')) ∧
          (i ++ i' ++ (f ++ f') ++ (b ++ b')).Perm (ds ++ es) :=
  ⟨Scope.Override.apply_merge, Scope.Override.merge_assoc,
    fun a => ⟨a.merge_empty, a.empty_merge⟩, merge_assoc, fun p => ⟨p.merge_empty, p.empty_merge⟩,
    fun _ _ _ _ _ _ hp hq => loadDirectives_merge hp hq⟩

/-- A program with a comment inline, a file of directives and a preset. -/
def layerSample : Program :=
  { origin := some 0x8000
    directives := ["0400#8000#8000##start"]
    directiveFiles := ["notes"]
    presets := [⟨"words", 0x8004, 0x8007⟩] }

/-- Settings laid over it, with directives of each kind of their own. -/
def upperLayerSample : Program :=
  { origin := some 0x9000
    directives := ["0400#8001#8001##next"]
    directiveFiles := ["more"]
    presets := [⟨"bytes", 0x8008, 0x8009⟩] }

/-- The files of both. -/
def layerSampleFiles (path : String) : Except FileError String :=
  if path = "notes" then .ok "0400#8002#8002##a\n" else .ok "0400#8003#8003##b\n"

/-- They are joined: the origin is the later one, and the directives stand source by source. -/
theorem overrides_compose_sample :
    ∃ ds es merged, (layerSample.loadDirectives (m := Id) layerSampleFiles "").run = .ok ds ∧
      (upperLayerSample.loadDirectives (m := Id) layerSampleFiles "").run = .ok es ∧
      ((layerSample.merge upperLayerSample).loadDirectives (m := Id) layerSampleFiles "").run =
        .ok merged ∧
      merged.map (·.first) = [0x8000, 0x8001, 0x8002, 0x8003, 0x8004, 0x8008] ∧
      merged.Perm (ds ++ es) := by
  have hp : ((layerSample.loadDirectives (m := Id) layerSampleFiles "").run.toOption.map
      List.length) = some 3 := by decide +kernel
  have hq : ((upperLayerSample.loadDirectives (m := Id) layerSampleFiles "").run.toOption.map
      List.length) = some 3 := by decide +kernel
  have hfirst : (((layerSample.merge upperLayerSample).loadDirectives (m := Id) layerSampleFiles
      "").run.toOption.map (List.map (·.first))) =
        some [0x8000, 0x8001, 0x8002, 0x8003, 0x8004, 0x8008] := by decide +kernel
  obtain ⟨ds, hds, -⟩ := exists_ok_of_toOption_map hp
  obtain ⟨es, hes, -⟩ := exists_ok_of_toOption_map hq
  obtain ⟨i, f, b, i', f', b', -, -, -, -, hmerged, hperm⟩ :=
    overrides_compose.2.2.2.2.2 layerSampleFiles "" layerSample upperLayerSample ds es hds hes
  rw [hmerged] at hfirst
  exact ⟨ds, es, _, hds, hes, hmerged, Option.some.inj hfirst, hperm⟩

end Program
end Disassembly
