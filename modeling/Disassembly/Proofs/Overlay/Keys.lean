/-
# The keys of pending directives

Pending directives are kept, found and removed by their keys. What comes of it is a list of directives
in the order of their ranges, and only the keys know numbers of arrival: an inserted directive comes
behind those with its range (`pending_insert`), because its number is greater than theirs. A search
that ends at the first start beyond the cursor misses nothing that has started, and what is removed
under the key that it finds is what was found (`takeActivePending_pending`). Removing comments key by
key is dropping them from the list (`pending_takeComments`). Two overlays that show the same list have
keys that correspond one by one (`Same.corresponds`), and every use keeps them so.
-/

import Disassembly.Proofs.Overlay.Order
import Mathlib.Data.List.Forall2

namespace Disassembly
namespace Overlay

open Directive

variable {o o' : Overlay} {key : Key} {d : Directive} {cursor : Nat}
  {m : Std.TreeMap Key Directive}

/-! ### Entries in the order of their keys -/

/-- The order of keys, on numbers. -/
theorem Key.isLE_iff {a b : Key} :
    (compare a b).isLE = true ↔ a.first.toNat < b.first.toNat ∨
      a.first.toNat = b.first.toNat ∧ (a.last.toNat < b.last.toNat ∨
        a.last.toNat = b.last.toNat ∧ a.arrival ≤ b.arrival) := by
  change ((compare a.first b.first).then
    ((compare a.last b.last).then (compare a.arrival b.arrival))).isLE = true ↔ _
  simp only [Ordering.isLE_then_iff_or, Std.isLE_compare, Std.compare_eq_lt,
    Std.LawfulEqOrd.compare_eq_iff_eq, UInt16.lt_iff_toNat_lt, ← UInt16.toNat_inj]

/-- Whether the key of an entry comes no later than that of another. -/
def keyLe (a b : Key × Directive) : Bool := (compare a.1 b.1).isLE

theorem keyLe_trans (a b c : Key × Directive) (hab : keyLe a b = true) (hbc : keyLe b c = true) :
    keyLe a c = true :=
  Std.TransCmp.isLE_trans hab hbc

theorem keyLe_total (a b : Key × Directive) : (keyLe a b || keyLe b a) = true := by
  rw [Bool.or_eq_true, keyLe, keyLe, Key.isLE_iff, Key.isLE_iff]
  omega

theorem pairwise_keyLe (m : Std.TreeMap Key Directive) :
    m.toList.Pairwise fun a b => keyLe a b = true :=
  Std.TreeMap.ordered_keys_toList.imp fun h => by rw [keyLe, h]; rfl

/-- No two entries have the same key. -/
theorem pairwise_ne (m : Std.TreeMap Key Directive) : m.toList.Pairwise fun a b => a.1 ≠ b.1 :=
  Std.TreeMap.ordered_keys_toList.imp fun {a b} h hab => by
    have hself : compare b.1 b.1 = .eq := Std.ReflCmp.compare_self
    rw [hab, hself] at h
    exact absurd h (by decide)

theorem nodup_toList (m : Std.TreeMap Key Directive) : m.toList.Nodup :=
  (pairwise_ne m).imp fun h hab => h (congrArg Prod.fst hab)

theorem mem_toList {entry : Key × Directive} :
    entry ∈ m.toList ↔ m[entry.1]? = some entry.2 :=
  Std.TreeMap.mem_toList_iff_getElem?_eq_some

theorem eq_of_mem_of_key_eq {a b : Key × Directive} (ha : a ∈ m.toList) (hb : b ∈ m.toList)
    (h : a.1 = b.1) : a = b := by
  have hget := mem_toList.1 ha
  rw [h, mem_toList.1 hb] at hget
  exact Prod.ext h (Option.some.inj hget).symm

/-- The entries of a map, put in the order of their keys, are its list. -/
theorem toList_eq_of_perm {entries : List (Key × Directive)} (hperm : m.toList.Perm entries)
    (hentries : entries.Pairwise fun a b => keyLe a b = true) : m.toList = entries := by
  refine List.Perm.eq_of_pairwise (fun a b ha hb hab hba => ?_) (pairwise_keyLe m) hentries hperm
  refine eq_of_mem_of_key_eq ha (hperm.mem_iff.2 hb) ?_
  exact Std.LawfulEqOrd.eq_of_compare (Std.OrientedCmp.isLE_antisymm hab hba)

/-- An entry with a new key is put where its key belongs. -/
theorem toList_insert (hfresh : m[key]? = none) (d : Directive) :
    (m.insert key d).toList = Sorting.insertBehind keyLe (key, d) m.toList := by
  refine toList_eq_of_perm ?_
    (Sorting.pairwise_insertBehind keyLe_trans keyLe_total _ (pairwise_keyLe m))
  have hkept : m.toList.filter (fun entry => !(key == entry.1)) = m.toList := by
    refine List.filter_eq_self.2 fun entry hentry => ?_
    have hne : key ≠ entry.1 := by
      rintro rfl
      exact absurd (hfresh.symm.trans (mem_toList.1 hentry)) (by simp)
    simpa using hne
  have hperm := Std.TreeMap.toList_insert_perm (t := m) (k := key) (v := d)
  simp only [Bool.not_eq_true, Bool.decide_eq_false, hkept] at hperm
  exact hperm.trans (Sorting.perm_insertBehind _ _).symm

/-- Removing a key drops its entry. -/
theorem toList_erase (m : Std.TreeMap Key Directive) (key : Key) :
    (m.erase key).toList = m.toList.filter fun entry => entry.1 ≠ key := by
  refine toList_eq_of_perm ?_ ((pairwise_keyLe m).sublist List.filter_sublist)
  refine (List.perm_ext_iff_of_nodup (nodup_toList _) ((nodup_toList m).filter _)).2 fun entry => ?_
  rw [List.mem_filter, mem_toList, mem_toList, Std.TreeMap.getElem?_erase]
  by_cases hkey : key = entry.1
  · simp [hkey]
  · have hne : compare key entry.1 ≠ .eq := fun h => hkey (Std.LawfulEqOrd.eq_of_compare h)
    simp [hne, Ne.symm hkey]

/-- An entry has the range of its directive, and a number that has been given out. -/
theorem keyed_of_mem {entry : Key × Directive} (h : entry ∈ o.entries.toList) :
    entry.1.first = entry.2.first ∧ entry.1.last = entry.2.last ∧ entry.1.arrival < o.arrivals :=
  o.keyed entry.1 entry.2 (mem_toList.1 h)

/-- **The pending directives are in the order of their ranges.** -/
theorem sorted_pending (o : Overlay) : Sorted o.pending := by
  refine List.pairwise_map.2 ((pairwise_keyLe o.entries).imp_of_mem fun {a b} ha hb hab => ?_)
  obtain ⟨hfirst, hlast, -⟩ := keyed_of_mem ha
  obtain ⟨hfirst', hlast', -⟩ := keyed_of_mem hb
  rw [keyLe, Key.isLE_iff, hfirst, hlast, hfirst', hlast'] at hab
  rw [le_iff]
  omega

/-! ### Inserting -/

/-- **A directive is inserted behind those that come no later**: their numbers are less than its own.
-/
theorem pending_insert (o : Overlay) (d : Directive) :
    (o.insert d).pending = insertPending d o.pending := by
  have hfresh : o.entries[(⟨d.first, d.last, o.arrivals⟩ : Key)]? = none := by
    refine Option.eq_none_iff_forall_ne_some.2 fun e he => ?_
    exact absurd (o.keyed _ e he).2.2 (Nat.lt_irrefl _)
  rw [pending, insert, toList_insert hfresh, insertPending_eq, pending]
  refine Sorting.map_insertBehind fun entry hentry => ?_
  obtain ⟨hfirst, hlast, harrival⟩ := keyed_of_mem hentry
  rw [Bool.eq_iff_iff, keyLe, Key.isLE_iff, le_iff, ← hfirst, ← hlast]
  simp only
  omega

@[simp] theorem pending_empty : empty.pending = [] := rfl

@[simp] theorem pending_activate (o : Overlay) (d : Directive) :
    (o.activate d).pending = o.pending := rfl

@[simp] theorem pending_expire (o : Overlay) (cursor : Nat) :
    (o.expire cursor).pending = o.pending := rfl

/-- Inserting directives sorts them in, and changes nothing in effect. -/
theorem foldl_insert (ds : List Directive) (o : Overlay) :
    (ds.foldl insert o).live = o.live ∧ ∀ d, (ds.foldl insert o).pending.filter (sameRange d) =
      o.pending.filter (sameRange d) ++ ds.filter (sameRange d) := by
  induction ds generalizing o with
  | nil => exact ⟨rfl, fun d => (List.append_nil _).symm⟩
  | cons x xs ih =>
    obtain ⟨hlive, hfilter⟩ := ih (o.insert x)
    refine ⟨hlive, fun d => ?_⟩
    rw [List.foldl_cons, hfilter d, pending_insert, filter_insertPending x d o.sorted_pending,
      List.append_assoc, ← List.filter_append, List.singleton_append]

/-- **Laying directives over an image sorts them.** -/
theorem pending_ofList (ds : List Directive) : (ofList ds).pending = sort ds := by
  refine eq_of_sorted_of_filter_eq (sorted_pending _) (sorted_sort ds) fun d => ?_
  rw [filter_sort, ofList, (foldl_insert ds empty).2 d, pending_empty, List.filter_nil,
    List.nil_append]

theorem live_ofList (ds : List Directive) : (ofList ds).live = [] := (foldl_insert ds empty).1

/-! ### Taking under a key -/

theorem take_eq_some (h : o.take key = some (d, o')) :
    o.entries[key]? = some d ∧ o' = o.erase key := by
  obtain ⟨e, hget, heq⟩ := Option.map_eq_some_iff.1 h
  obtain ⟨rfl, rfl⟩ := Prod.mk.inj heq
  exact ⟨hget, rfl⟩

theorem take_of_mem {entry : Key × Directive} (h : entry ∈ o.entries.toList) :
    o.take entry.1 = some (entry.2, o.erase entry.1) := by
  rw [take, mem_toList.1 h, Option.map_some]

/-- The first directive that has started by the cursor and is not a plain comment, and the
directives without it. -/
def takeActivePending (cursor : Nat) : List Directive → Option (Directive × List Directive)
  | [] => none
  | d :: ds =>
    if d.first.toNat ≤ cursor then
      if d.isPlainComment then
        (takeActivePending cursor ds).map fun (taken, rest) => (taken, d :: rest)
      else some (d, ds)
    else none

/-- The directive of an entry that is found is the first of the list, and dropping its key is
dropping it. -/
theorem takeActivePending_map {entries : List (Key × Directive)}
    (hkeys : entries.Pairwise fun a b => a.1 ≠ b.1)
    (hfirst : ∀ entry ∈ entries, entry.1.first = entry.2.first) (cursor : Nat) :
    takeActivePending cursor (entries.map Prod.snd) =
      ((entries.takeWhile fun entry => entry.1.first.toNat ≤ cursor).find?
        fun entry => !entry.2.isPlainComment).map fun found =>
          (found.2, (entries.filter fun entry => entry.1 ≠ found.1).map Prod.snd) := by
  induction entries with
  | nil => rfl
  | cons entry entries ih =>
    rw [List.pairwise_cons] at hkeys
    rw [List.forall_mem_cons] at hfirst
    rw [List.map_cons, takeActivePending, ← hfirst.1]
    by_cases hstarted : entry.1.first.toNat ≤ cursor
    · rw [if_pos hstarted, List.takeWhile_cons_of_pos (by simpa using hstarted)]
      cases hplain : entry.2.isPlainComment with
      | true =>
        rw [if_pos rfl, ih hkeys.2 hfirst.2, List.find?_cons_of_neg (by simp [hplain]),
          Option.map_map]
        refine Option.map_congr fun found hfound => ?_
        have hne : entry.1 ≠ found.1 := hkeys.1 found
          ((List.takeWhile_sublist _).subset (List.mem_of_find?_eq_some hfound))
        rw [List.filter_cons_of_pos (by simpa using hne), List.map_cons]
        rfl
      | false =>
        have hrest : entries.filter (fun other => other.1 ≠ entry.1) = entries :=
          List.filter_eq_self.2 fun other hother => by simpa using (hkeys.1 other hother).symm
        rw [if_neg (by simp), List.find?_cons_of_pos (by simp [hplain]), Option.map_some,
          List.filter_cons_of_neg (by simp), hrest]
    · rw [if_neg hstarted, List.takeWhile_cons_of_neg (by simpa using hstarted)]
      rfl

/-- **Taking a directive under the key of the first entry found is taking the first of the list.** -/
theorem takeActivePending_pending (o : Overlay) (cursor : Nat) :
    takeActivePending cursor o.pending =
      (o.takeActive cursor).map fun taken => (taken.1, taken.2.pending) := by
  rw [pending, takeActivePending_map (pairwise_ne o.entries) (fun _ h => (keyed_of_mem h).1),
    takeActive, startedBy]
  cases hfound : (o.entries.toList.takeWhile fun entry => entry.1.first.toNat ≤ cursor).find?
      fun entry => !entry.2.isPlainComment with
  | none => rfl
  | some found =>
    have hmem : found ∈ o.entries.toList :=
      (List.takeWhile_sublist _).subset (List.mem_of_find?_eq_some hfound)
    rw [Option.bind_some, take_of_mem hmem, Option.map_some, Option.map_some, pending, erase,
      toList_erase]

theorem takeActivePending_of_takeActive (h : o.takeActive cursor = some (d, o')) :
    takeActivePending cursor o.pending = some (d, o'.pending) := by
  rw [takeActivePending_pending, h, Option.map_some]

theorem takeActive_eq_none_iff :
    o.takeActive cursor = none ↔ takeActivePending cursor o.pending = none := by
  rw [takeActivePending_pending, Option.map_eq_none_iff]

theorem exists_takeActive {rest : List Directive}
    (h : takeActivePending cursor o.pending = some (d, rest)) :
    ∃ o', o.takeActive cursor = some (d, o') ∧ o'.pending = rest := by
  rw [takeActivePending_pending] at h
  obtain ⟨⟨e, o'⟩, htaken, heq⟩ := Option.map_eq_some_iff.1 h
  obtain ⟨rfl, rfl⟩ := Prod.mk.inj heq
  exact ⟨o', htaken, rfl⟩

/-- What is in effect stays so when a directive is taken. -/
theorem live_takeActive (h : o.takeActive cursor = some (d, o')) : o'.live = o.live := by
  obtain ⟨entry, -, htake⟩ := Option.bind_eq_some_iff.1 h
  rw [(take_eq_some htake).2]
  rfl

/-! ### Taking under many keys -/

theorem takeKeys_cons_of_some {first : Nat} {keys : List Key} (h : o.take key = some (d, o')) :
    takeKeys first (key :: keys) o =
      ((commentFrom? first d).toList ++ (takeKeys first keys o').1,
        (takeKeys first keys o').2) := by
  rw [takeKeys, h]

/-- Taking keys one after the other drops them all, and meets each directive that was there. -/
theorem takeKeys_eq (first : Nat) {keys : List Key} (hkeys : keys.Nodup) (o : Overlay) :
    (takeKeys first keys o).1 =
        keys.filterMap (fun key => o.entries[key]?.bind (commentFrom? first)) ∧
      (takeKeys first keys o).2.entries.toList =
        o.entries.toList.filter (fun entry => entry.1 ∉ keys) ∧
      (takeKeys first keys o).2.live = o.live := by
  induction keys generalizing o with
  | nil => simp [takeKeys]
  | cons key keys ih =>
    rw [List.nodup_cons] at hkeys
    cases hget : o.entries[key]? with
    | none =>
      have htake : o.take key = none := by rw [take, hget, Option.map_none]
      obtain ⟨htaken, hleft, hlive⟩ := ih hkeys.2 o
      rw [takeKeys, htake]
      refine ⟨by simp [htaken, hget], hleft.trans (List.filter_congr fun entry hentry => ?_), hlive⟩
      have hne : entry.1 ≠ key := by
        rintro rfl
        exact absurd (hget.symm.trans (mem_toList.1 hentry)) (by simp)
      simp [hne]
    | some d =>
      have htake : o.take key = some (d, o.erase key) := by rw [take, hget, Option.map_some]
      obtain ⟨htaken, hleft, hlive⟩ := ih hkeys.2 (o.erase key)
      rw [takeKeys_cons_of_some htake]
      refine ⟨?_, ?_, hlive⟩
      · have hrest : keys.filterMap (fun key' => (o.erase key).entries[key']?.bind
            (commentFrom? first)) =
              keys.filterMap fun key' => o.entries[key']?.bind (commentFrom? first) := by
          refine List.filterMap_congr fun key' hkey' => ?_
          have hne : compare key key' ≠ .eq := fun h =>
            hkeys.1 (Std.LawfulEqOrd.eq_of_compare h ▸ hkey')
          rw [erase, Std.TreeMap.getElem?_erase, if_neg hne]
        rw [htaken, hrest, List.filterMap_cons, hget, Option.bind_some]
        cases commentFrom? first d <;> rfl
      · rw [hleft, erase, toList_erase, List.filter_filter]
        exact List.filter_congr fun entry _ => by simp [Bool.and_comm]

/-- Whether the directive is a plain comment that starts at or before `last`. -/
def isDue (last : Nat) (d : Directive) : Bool :=
  d.isPlainComment && d.first.toNat ≤ last

/-- The search for what has started ends where nothing more has. -/
theorem startedBy_eq (o : Overlay) (cursor : Nat) :
    o.startedBy cursor = o.entries.toList.filter fun entry => entry.1.first.toNat ≤ cursor := by
  refine Sorting.takeWhile_eq_filter ((pairwise_keyLe o.entries).imp fun {a b} hab hb => ?_)
  rw [keyLe, Key.isLE_iff] at hab
  rw [decide_eq_true_eq] at hb ⊢
  omega

/-- The entries of the comments that are taken. -/
theorem filter_startedBy (o : Overlay) (last : Nat) :
    ((o.startedBy last).filter fun entry => entry.2.isPlainComment) =
      o.entries.toList.filter fun entry => isDue last entry.2 := by
  rw [startedBy_eq, List.filter_filter]
  exact List.filter_congr fun entry hentry => by rw [isDue, (keyed_of_mem hentry).1]

theorem nodup_keys_filter (o : Overlay) (p : Key × Directive → Bool) :
    ((o.entries.toList.filter p).map Prod.fst).Nodup :=
  List.pairwise_map.2 ((pairwise_ne o.entries).sublist List.filter_sublist)

/-- **The comments that are taken are those of the list**, in its order. -/
theorem fst_takeComments (o : Overlay) (first last : Nat) :
    (o.takeComments first last).1 =
      (o.pending.filter (isDue last)).filterMap (commentFrom? first) := by
  rw [takeComments, filter_startedBy, (takeKeys_eq first (nodup_keys_filter o _) o).1, pending,
    List.filterMap_map, List.filter_map, List.filterMap_map]
  refine List.filterMap_congr fun entry hentry => ?_
  rw [Function.comp_apply, mem_toList.1 (List.mem_filter.1 hentry).1, Option.bind_some]
  rfl

/-- **What is left when comments are taken is the list without them.** -/
theorem pending_takeComments (o : Overlay) (first last : Nat) :
    (o.takeComments first last).2.pending = o.pending.filter fun d => !isDue last d := by
  rw [takeComments, filter_startedBy, pending, (takeKeys_eq first (nodup_keys_filter o _) o).2.1,
    pending, List.filter_map]
  refine congrArg _ (List.filter_congr fun entry hentry => ?_)
  rw [Function.comp_apply, Bool.eq_iff_iff, decide_eq_true_eq, Bool.not_eq_true', List.mem_map,
    Bool.eq_false_iff]
  refine not_congr ⟨?_, fun hdue => ⟨entry, List.mem_filter.2 ⟨hentry, hdue⟩, rfl⟩⟩
  rintro ⟨other, hother, hkey⟩
  obtain ⟨hmem, hdue⟩ := List.mem_filter.1 hother
  rwa [eq_of_mem_of_key_eq hmem hentry hkey] at hdue

/-- What is in effect stays so when comments are taken. -/
theorem live_takeComments (o : Overlay) (first last : Nat) :
    (o.takeComments first last).2.live = o.live := by
  rw [takeComments, filter_startedBy]
  exact (takeKeys_eq first (nodup_keys_filter o _) o).2.2

/-! ### Keys with other numbers -/

/-- **Whether two overlays hold the same directives in the same order**, with the same comments in
effect. -/
structure Same (o o' : Overlay) : Prop where
  pending : o.pending = o'.pending
  live : o.live = o'.live

/-- **The keys correspond one by one in their order**: they have the same ranges, and only their
numbers of arrival may differ. -/
theorem Same.corresponds (h : o.Same o') :
    List.Forall₂ (fun a b => a.1.first = b.1.first ∧ a.1.last = b.1.last ∧ a.2 = b.2)
      o.entries.toList o'.entries.toList := by
  have hdirectives : List.Forall₂ Eq o.pending o'.pending := by
    rw [h.pending, List.forall₂_eq_eq_eq]
  rw [Overlay.pending, Overlay.pending, List.forall₂_map_left_iff,
    List.forall₂_map_right_iff] at hdirectives
  rw [List.forall₂_iff_zip] at hdirectives ⊢
  refine ⟨hdirectives.1, fun {a b} hab => ?_⟩
  obtain ⟨ha, hb⟩ := List.of_mem_zip hab
  obtain ⟨hfirst, hlast, -⟩ := keyed_of_mem ha
  obtain ⟨hfirst', hlast', -⟩ := keyed_of_mem hb
  have hsame : a.2 = b.2 := hdirectives.2 hab
  exact ⟨by rw [hfirst, hfirst', hsame], by rw [hlast, hlast', hsame], hsame⟩

/-- A directive comes to stand at the same place, whatever its number on either side. -/
theorem Same.insert (h : o.Same o') (d : Directive) : (o.insert d).Same (o'.insert d) := by
  refine ⟨?_, h.live⟩
  rw [pending_insert, pending_insert, h.pending]

/-- The same directive is taken, from under the key that it has on either side. -/
theorem Same.takeActive (h : o.Same o') (cursor : Nat) :
    (o.takeActive cursor = none ∧ o'.takeActive cursor = none) ∨
      ∃ d rest rest', o.takeActive cursor = some (d, rest) ∧
        o'.takeActive cursor = some (d, rest') ∧ rest.Same rest' := by
  cases taken : o.takeActive cursor with
  | none =>
    rw [takeActive_eq_none_iff, h.pending, ← takeActive_eq_none_iff] at taken
    exact .inl ⟨rfl, taken⟩
  | some found =>
    obtain ⟨d, rest⟩ := found
    have hfound := takeActivePending_of_takeActive taken
    rw [h.pending] at hfound
    obtain ⟨rest', taken', hrest⟩ := exists_takeActive hfound
    refine .inr ⟨d, rest, rest', rfl, taken', hrest.symm, ?_⟩
    rw [live_takeActive taken, live_takeActive taken', h.live]

/-- The same comments are taken. -/
theorem Same.takeComments (h : o.Same o') (first last : Nat) :
    (o.takeComments first last).1 = (o'.takeComments first last).1 ∧
      (o.takeComments first last).2.Same (o'.takeComments first last).2 := by
  refine ⟨?_, ?_, ?_⟩
  · rw [fst_takeComments, fst_takeComments, h.pending]
  · rw [pending_takeComments, pending_takeComments, h.pending]
  · rw [live_takeComments, live_takeComments, h.live]

end Overlay
end Disassembly
