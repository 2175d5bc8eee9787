/-
# The bytes of a window

The bytes from an address of the window to its end are a list that starts with the byte at the
address and goes on with the bytes from the next address (`windowFrom_eq_cons`). So an image holds
them one after the other, as a script reads them (`holds_windowFrom`), and the bytes after the first
few are those from a later address (`drop_windowFrom`).
-/

import Disassembly.Image
import Mathlib.Data.List.Basic

namespace Disassembly
namespace Image

variable (image : Image)

/-- Whether the bytes at an address and at those after it are the given ones. -/
def Holds : Nat → List UInt8 → Prop
  | _, [] => True
  | address, b :: bs => image.byte? address = some b ∧ Holds (address + 1) bs

variable {image}

/-- An image that holds two runs of bytes one behind the other holds them both. -/
theorem holds_append {address : Nat} {bs bs' : List UInt8} :
    image.Holds address (bs ++ bs') ↔
      image.Holds address bs ∧ image.Holds (address + bs.length) bs' := by
  induction bs generalizing address with
  | nil => simp [Holds]
  | cons b bs ih =>
    rw [List.cons_append, Holds, Holds, ih, and_assoc, List.length_cons,
      show address + 1 + bs.length = address + (bs.length + 1) by omega]

/-- The bytes from an address of the window are a part of the buffer. -/
theorem windowFrom_eq_take {address : Nat} (hlo : image.origin.toNat ≤ address)
    (hhi : address ≤ image.stop) :
    image.windowFrom address =
      (image.data.toList.drop (image.offset + (address - image.origin.toNat))).take
        (image.stop - address) := by
  unfold windowFrom contains
  rcases Nat.lt_or_eq_of_le hhi with hhi | rfl
  · have hlen : image.offset + image.length - (image.offset + (address - image.origin.toNat)) =
        image.stop - address := by
      unfold stop at hhi ⊢; omega
    simp only [hlo, hhi, decide_true, Bool.and_self, if_true, Array.toList_extract, List.extract,
      hlen]
  · simp

/-- There are no bytes from the end of the window on. -/
theorem windowFrom_stop : image.windowFrom image.stop = [] := by
  simp [windowFrom, contains]

/-- As many bytes come from an address of the window as there are addresses up to its end. -/
theorem length_windowFrom {address : Nat} (hlo : image.origin.toNat ≤ address)
    (hhi : address ≤ image.stop) : (image.windowFrom address).length = image.stop - address := by
  have hb := image.inBuffer
  rw [windowFrom_eq_take hlo hhi, List.length_take, List.length_drop, Array.length_toList]
  unfold stop at hhi ⊢
  omega

/-- Behind the first few bytes from an address come the bytes from a later address. -/
theorem drop_windowFrom {address : Nat} (count : Nat) (hlo : image.origin.toNat ≤ address)
    (hhi : address + count ≤ image.stop) :
    (image.windowFrom address).drop count = image.windowFrom (address + count) := by
  rw [windowFrom_eq_take hlo (by omega), windowFrom_eq_take (by omega) hhi, List.drop_take,
    List.drop_drop, Nat.sub_sub,
    show image.offset + (address - image.origin.toNat) + count =
      image.offset + (address + count - image.origin.toNat) by omega]

/-- **The bytes from an address of the window are the byte there and those from the next address.**
-/
theorem windowFrom_eq_cons {address : Nat} (hlo : image.origin.toNat ≤ address)
    (hhi : address < image.stop) :
    ∃ b, image.byte? address = some b ∧
      image.windowFrom address = b :: image.windowFrom (address + 1) := by
  have hb := image.inBuffer
  have hlen := length_windowFrom hlo (Nat.le_of_lt hhi)
  have hdrop := drop_windowFrom 1 hlo hhi
  have hpos : 0 < (image.windowFrom address).length := by omega
  obtain ⟨b, bs, hbs⟩ := List.exists_cons_of_length_pos hpos
  rw [hbs, List.drop_one, List.tail_cons] at hdrop
  refine ⟨b, ?_, by rw [hbs, hdrop]⟩
  have hget : (image.windowFrom address)[0]? = some b := by rw [hbs]; rfl
  unfold stop at hhi
  rw [windowFrom_eq_take hlo (by unfold stop; omega),
    List.getElem?_take_of_lt (by unfold stop; omega), List.getElem?_drop,
    Array.getElem?_toList] at hget
  have hindex : image.index? address =
      some (image.offset + (address - image.origin.toNat)) := by
    unfold index?
    rw [if_pos ⟨by omega, by omega⟩]
    congr 1
    omega
  rw [byte?, hindex, Option.bind_some]
  exact hget

/-- **A script reads the bytes of the window one after the other.** -/
theorem holds_windowFrom {address : Nat} (hlo : image.origin.toNat ≤ address)
    (hhi : address ≤ image.stop) : image.Holds address (image.windowFrom address) := by
  induction hn : image.stop - address generalizing address with
  | zero =>
    rw [show address = image.stop by omega, windowFrom_stop]
    trivial
  | succ n ih =>
    obtain ⟨b, hbyte, hcons⟩ := windowFrom_eq_cons hlo (by omega : address < image.stop)
    rw [hcons]
    exact ⟨hbyte, ih (by omega) (by omega) (by omega)⟩

/-- The bytes up to a count are the first of those to the end of the window. -/
theorem windowUpTo_eq_take (address count : Nat) :
    image.windowUpTo address count = (image.windowFrom address).take count := by
  unfold windowUpTo windowFrom
  split
  · rw [Array.toList_extract, Array.toList_extract, List.extract, List.extract, List.take_take]
    congr 1
    omega
  · rw [List.take_nil]

end Image
end Disassembly
