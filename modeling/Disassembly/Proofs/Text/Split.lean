/-
# Cutting texts

A text that was put together from pieces is cut into these pieces again: at a separator that no
piece holds (`splitOn_intercalate`, `splitOnUpTo_append`), and at the byte where a piece ends
(`splitAtByte?_append`). The other way, the pieces that a cut gives make up the text
(`intercalate_splitOnUpTo`, `splitAtByte?_eq_some`). Letters and digits of ASCII are neither
separators nor blanks, and each is one byte.
-/

import Disassembly.Text.Blank
import Disassembly.Text.Offset
import Mathlib.Data.List.DropRight

namespace Disassembly
namespace Text

/-- The codes of letters and digits. -/
theorem toNat_of_isAlphanum {c : Char} (h : c.isAlphanum = true) :
    48 ≤ c.toNat ∧ c.toNat ≤ 122 ∧ (c.toNat ≤ 57 ∨ 65 ≤ c.toNat) := by
  change ((decide (65 ≤ c.toNat ∧ c.toNat ≤ 90) ||
    (decide (97 ≤ c.toNat) && decide (c.toNat ≤ 122))) ||
    (decide (48 ≤ c.toNat) && decide (c.toNat ≤ 57))) = true at h
  simp only [Bool.or_eq_true, Bool.and_eq_true, decide_eq_true_eq] at h
  omega

theorem isBlank_of_isAlphanum {c : Char} (h : c.isAlphanum = true) : isBlank c = false := by
  have := toNat_of_isAlphanum h
  simp only [isBlank, blankRanges, List.any_cons, List.any_nil, Bool.or_false, Bool.or_eq_false_iff,
    Bool.and_eq_false_iff, decide_eq_false_iff_not]
  omega

theorem utf8Size_of_isAlphanum {c : Char} (h : c.isAlphanum = true) : c.utf8Size = 1 := by
  have := toNat_of_isAlphanum h
  rw [Char.utf8Size_eq_one_iff, UInt32.le_iff_toNat_le]
  exact Nat.le_trans this.2.1 (by decide)

/-- Letters and digits take a byte each. -/
theorem byteLength_of_isAlphanum {cs : List Char} (h : ∀ c ∈ cs, c.isAlphanum = true) :
    byteLength cs = cs.length := by
  induction cs with
  | nil => rfl
  | cons c cs ih =>
    rw [byteLength, ih fun d hd => h d (List.mem_cons_of_mem _ hd),
      utf8Size_of_isAlphanum (h c List.mem_cons_self), List.length_cons, Nat.add_comm]

/-- A text without blanks is not trimmed. -/
theorem trim_of_not_isBlank {cs : List Char} (h : ∀ c ∈ cs, isBlank c = false) : trim cs = cs := by
  have hdrop (ds : List Char) (hds : ∀ c ∈ ds, isBlank c = false) : ds.dropWhile isBlank = ds := by
    cases ds with
    | nil => rfl
    | cons d ds =>
      rw [List.dropWhile_cons_of_neg]
      simp [hds d List.mem_cons_self]
  rw [trim, trimStart, dropEndWhile, hdrop cs h,
    hdrop cs.reverse fun c hc => h c (by simpa using hc), List.reverse_reverse]

/-- Letters and digits are not trimmed. -/
theorem trim_of_isAlphanum {cs : List Char} (h : ∀ c ∈ cs, c.isAlphanum = true) : trim cs = cs :=
  trim_of_not_isBlank fun c hc => isBlank_of_isAlphanum (h c hc)

/-- A text that starts with another character than a blank is not trimmed to nothing. -/
theorem trim_ne_nil {c : Char} (hc : isBlank c = false) (cs : List Char) : trim (c :: cs) ≠ [] := by
  intro h
  rw [trim, trimStart, List.dropWhile_cons_of_neg (by simp [hc])] at h
  change List.rdropWhile isBlank (c :: cs) = [] at h
  have hblank := List.rdropWhile_eq_nil_iff.1 h c List.mem_cons_self
  rw [hc] at hblank
  exact absurd hblank (by decide)

theorem isPrefix_dropEndWhile (p : Char → Bool) (cs : List Char) : dropEndWhile p cs <+: cs :=
  List.rdropWhile_prefix p cs

/-- What is left does not end with a character that is dropped. -/
theorem getLast?_dropEndWhile {p : Char → Bool} {c : Char} {cs : List Char}
    (h : (dropEndWhile p cs).getLast? = some c) : p c = false := by
  have hne : dropEndWhile p cs ≠ [] := by
    intro hnil
    rw [hnil] at h
    exact absurd h (by simp)
  have hlast := List.rdropWhile_last_not p cs hne
  rw [List.getLast?_eq_some_getLast hne] at h
  rw [show (List.rdropWhile p cs).getLast hne = c from Option.some.inj h] at hlast
  exact Bool.of_not_eq_true hlast

/-- Nothing is dropped from a text with another end. -/
theorem dropEndWhile_eq_self {p : Char → Bool} {cs : List Char}
    (h : ∀ c, cs.getLast? = some c → p c = false) : dropEndWhile p cs = cs := by
  refine List.rdropWhile_eq_self_iff.2 fun hne => ?_
  rw [h _ (List.getLast?_eq_some_getLast hne)]
  decide

/-- Nothing is dropped from a character on that is not to be dropped. -/
theorem dropEndWhile_append_cons {p : Char → Bool} {c : Char} (hc : p c = false)
    (xs ys : List Char) : dropEndWhile p (xs ++ c :: ys) = xs ++ c :: dropEndWhile p ys := by
  induction ys using List.reverseRecOn with
  | nil => exact List.rdropWhile_concat_neg p xs c (by simp [hc])
  | append_singleton ys y ih =>
    rw [← List.cons_append, ← List.append_assoc]
    cases hy : p y with
    | true =>
      have hlong : dropEndWhile p (xs ++ c :: ys ++ [y]) = dropEndWhile p (xs ++ c :: ys) :=
        List.rdropWhile_concat_pos p _ y hy
      have hshort : dropEndWhile p (ys ++ [y]) = dropEndWhile p ys :=
        List.rdropWhile_concat_pos p _ y hy
      rw [hlong, hshort, ih]
    | false =>
      have hlong : dropEndWhile p (xs ++ c :: ys ++ [y]) = xs ++ c :: ys ++ [y] :=
        List.rdropWhile_concat_neg p _ y (by simp [hy])
      have hshort : dropEndWhile p (ys ++ [y]) = ys ++ [y] :=
        List.rdropWhile_concat_neg p _ y (by simp [hy])
      rw [hlong, hshort, List.append_assoc, List.cons_append]

theorem byteLength_append (xs ys : List Char) :
    byteLength (xs ++ ys) = byteLength xs + byteLength ys := by
  induction xs with
  | nil => simp [byteLength]
  | cons x xs ih => rw [List.cons_append, byteLength, byteLength, ih, Nat.add_assoc]

/-- A text that is the start of another is all of it if it has as many bytes. -/
theorem eq_of_prefix_of_byteLength {xs ys : List Char} (hstart : xs <+: ys)
    (hlen : byteLength xs = byteLength ys) : xs = ys := by
  obtain ⟨rest, rfl⟩ := hstart
  rw [byteLength_append] at hlen
  cases rest with
  | nil => rw [List.append_nil]
  | cons c rest =>
    have hpos := c.utf8Size_pos
    rw [byteLength] at hlen
    omega

/-- **A text is cut where its first piece ends.** -/
theorem splitAtByte?_append (xs ys : List Char) :
    splitAtByte? (byteLength xs) (xs ++ ys) = some (xs, ys) := by
  induction xs with
  | nil => cases ys <;> rfl
  | cons x xs ih =>
    have hpos := x.utf8Size_pos
    rw [List.cons_append, splitAtByte?, byteLength, if_neg (by omega), if_pos (by omega),
      Nat.add_sub_cancel_left, ih]
    rfl

/-- The two parts of a cut make up the text, and the first ends at the byte. -/
theorem splitAtByte?_eq_some {n : Nat} {cs piece rest : List Char}
    (h : splitAtByte? n cs = some (piece, rest)) : cs = piece ++ rest ∧ byteLength piece = n := by
  induction cs generalizing n piece with
  | nil =>
    rw [splitAtByte?] at h
    split at h
    · rename_i hn
      obtain ⟨rfl, rfl⟩ := Prod.mk.inj (Option.some.inj h)
      exact ⟨rfl, hn.symm⟩
    · exact absurd h (by simp)
  | cons c cs ih =>
    rw [splitAtByte?] at h
    split at h
    · rename_i hn
      obtain ⟨rfl, rfl⟩ := Prod.mk.inj (Option.some.inj h)
      exact ⟨rfl, hn.symm⟩
    · split at h
      · rename_i hle
        obtain ⟨⟨front, back⟩, hcut, heq⟩ := Option.map_eq_some_iff.1 h
        obtain ⟨rfl, rfl⟩ := Prod.mk.inj heq
        obtain ⟨rfl, hlen⟩ := ih hcut
        refine ⟨rfl, ?_⟩
        rw [byteLength, hlen]
        omega
      · exact absurd h (by simp)

/-- **A text is cut at the first separator.** -/
theorem splitOnUpTo_append {separator : Char} (n : Nat) {piece : List Char}
    (h : separator ∉ piece) (rest : List Char) :
    splitOnUpTo separator (n + 1) (piece ++ separator :: rest) =
      piece :: splitOnUpTo separator n rest := by
  induction piece with
  | nil => rw [List.nil_append, splitOnUpTo, if_pos rfl]
  | cons c piece ih =>
    have hc : c ≠ separator := fun heq => h (heq ▸ List.mem_cons_self)
    rw [List.cons_append, splitOnUpTo, if_neg hc, ih fun hmem => h (List.mem_cons_of_mem _ hmem)]

/-- What is left when no more pieces are wanted is one piece. -/
theorem splitOnUpTo_zero (separator : Char) (cs : List Char) :
    splitOnUpTo separator 0 cs = [cs] := by
  cases cs <;> rfl

theorem splitOnUpTo_ne_nil (separator : Char) (n : Nat) (cs : List Char) :
    splitOnUpTo separator n cs ≠ [] := by
  intro h
  cases cs with
  | nil => simp [splitOnUpTo] at h
  | cons c cs =>
    cases n with
    | zero => simp [splitOnUpTo] at h
    | succ n =>
      rw [splitOnUpTo] at h
      split at h
      · simp at h
      · split at h <;> simp at h

/-- **The pieces of a text, joined by separators, are the text.** -/
theorem intercalate_splitOnUpTo (separator : Char) (n : Nat) (cs : List Char) :
    [separator].intercalate (splitOnUpTo separator n cs) = cs := by
  induction cs generalizing n with
  | nil => simp [splitOnUpTo]
  | cons c cs ih =>
    cases n with
    | zero => simp [splitOnUpTo]
    | succ n =>
      rw [splitOnUpTo]
      split
      · rename_i hc
        have hrest := ih n
        obtain ⟨piece, pieces, hpieces⟩ :=
          List.exists_cons_of_ne_nil (splitOnUpTo_ne_nil separator n cs)
        rw [hpieces] at hrest ⊢
        rw [List.intercalate_cons_cons, hrest, hc]
        rfl
      · have hrest := ih (n + 1)
        obtain ⟨piece, pieces, hpieces⟩ :=
          List.exists_cons_of_ne_nil (splitOnUpTo_ne_nil separator (n + 1) cs)
        rw [hpieces] at hrest ⊢
        cases pieces with
        | nil =>
          rw [List.intercalate_singleton] at hrest
          rw [List.intercalate_singleton, hrest]
        | cons next pieces =>
          rw [List.intercalate_cons_cons] at hrest
          rw [List.intercalate_cons_cons, List.cons_append, List.cons_append, hrest]

theorem splitOn_of_not_mem {separator : Char} {piece : List Char} (h : separator ∉ piece) :
    splitOn separator piece = [piece] := by
  induction piece with
  | nil => rfl
  | cons c piece ih =>
    have hc : c ≠ separator := fun heq => h (heq ▸ List.mem_cons_self)
    rw [splitOn, if_neg hc, ih fun hmem => h (List.mem_cons_of_mem _ hmem)]

theorem splitOn_append {separator : Char} {piece : List Char} (h : separator ∉ piece)
    (rest : List Char) :
    splitOn separator (piece ++ separator :: rest) = piece :: splitOn separator rest := by
  induction piece with
  | nil => rw [List.nil_append, splitOn, if_pos rfl]
  | cons c piece ih =>
    have hc : c ≠ separator := fun heq => h (heq ▸ List.mem_cons_self)
    rw [List.cons_append, splitOn, if_neg hc, ih fun hmem => h (List.mem_cons_of_mem _ hmem)]

theorem splitOn_ne_nil (separator : Char) (cs : List Char) : splitOn separator cs ≠ [] := by
  cases cs with
  | nil => simp [splitOn]
  | cons c cs =>
    rw [splitOn]
    split
    · simp
    · split <;> simp

/-- **The pieces of a text are those before any of its separators and those behind it.** -/
theorem splitOn_append_cons (separator : Char) (xs ys : List Char) :
    splitOn separator (xs ++ separator :: ys) = splitOn separator xs ++ splitOn separator ys := by
  induction xs with
  | nil =>
    have hempty : splitOn separator [] = [[]] := rfl
    rw [List.nil_append, hempty, splitOn, if_pos rfl, List.singleton_append]
  | cons x xs ih =>
    rw [List.cons_append, splitOn, splitOn, ih]
    split
    · rfl
    · obtain ⟨piece, pieces, hpieces⟩ :=
        List.exists_cons_of_ne_nil (splitOn_ne_nil separator xs)
      rw [hpieces]
      rfl

/-- **Pieces that are joined by separators are the pieces of the text.** -/
theorem splitOn_intercalate {separator : Char} {pieces : List (List Char)} (hne : pieces ≠ [])
    (h : ∀ piece ∈ pieces, separator ∉ piece) :
    splitOn separator ([separator].intercalate pieces) = pieces := by
  induction pieces with
  | nil => exact absurd rfl hne
  | cons piece pieces ih =>
    have hpiece := h piece List.mem_cons_self
    cases pieces with
    | nil => rw [List.intercalate_singleton, splitOn_of_not_mem hpiece]
    | cons next pieces =>
      rw [List.intercalate_cons_cons, List.append_assoc, List.singleton_append,
        splitOn_append hpiece, ih (by simp) fun p hp => h p (List.mem_cons_of_mem _ hp)]

/-- Text before the first piece becomes a part of it. -/
theorem splitOn_append_of_not_mem {separator : Char} {piece rest first : List Char}
    {pieces : List (List Char)} (h : separator ∉ piece)
    (hrest : splitOn separator rest = first :: pieces) :
    splitOn separator (piece ++ rest) = (piece ++ first) :: pieces := by
  induction piece with
  | nil => exact hrest
  | cons c piece ih =>
    have hc : c ≠ separator := fun heq => h (heq ▸ List.mem_cons_self)
    rw [List.cons_append, splitOn, if_neg hc, ih fun hmem => h (List.mem_cons_of_mem _ hmem)]
    rfl

/-- The pieces between separators hold none. -/
theorem not_mem_of_mem_splitOn {separator : Char} {piece cs : List Char}
    (h : piece ∈ splitOn separator cs) : separator ∉ piece := by
  induction cs generalizing piece with
  | nil =>
    obtain rfl := List.mem_singleton.1 h
    exact List.not_mem_nil
  | cons c cs ih =>
    rw [splitOn] at h
    split at h
    · rcases List.mem_cons.1 h with rfl | h
      · exact List.not_mem_nil
      · exact ih h
    · rename_i hc
      cases hpieces : splitOn separator cs with
      | nil =>
        rw [hpieces] at h
        obtain rfl := List.mem_singleton.1 h
        simpa using Ne.symm hc
      | cons head pieces =>
        rw [hpieces] at h ih
        rcases List.mem_cons.1 h with rfl | h
        · intro hmem
          rcases List.mem_cons.1 hmem with heq | hmem
          · exact hc heq.symm
          · exact ih List.mem_cons_self hmem
        · exact ih (List.mem_cons_of_mem _ h)

/-- **Pieces that each end with a separator are the pieces of the text**, with an empty one behind
the last separator. -/
theorem splitOn_flatMap {separator : Char} {pieces : List (List Char)}
    (h : ∀ piece ∈ pieces, separator ∉ piece) :
    splitOn separator (pieces.flatMap (· ++ [separator])) = pieces ++ [[]] := by
  induction pieces with
  | nil => rfl
  | cons piece pieces ih =>
    rw [List.flatMap_cons, List.append_assoc, List.singleton_append,
      splitOn_append (h piece List.mem_cons_self),
      ih fun p hp => h p (List.mem_cons_of_mem _ hp), List.cons_append]

end Text
end Disassembly
