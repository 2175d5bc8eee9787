/-
# Reads of an image

An image is read in three ways. Scripts read a byte, a word or a run of bytes anywhere in the buffer,
and the walk decodes the bytes from an address to the end of the window. All of them show the same
byte at an address (`reads_agree`): a run of bytes is read exactly if each byte of it is
(`bytes?_eq_some_iff`), and the bytes from an address of the window are such a run
(`bytes?_windowFrom`). No way to read looks at a position outside of the buffer.
-/

import Disassembly.Proofs.Image.Window

namespace Disassembly
namespace Image

variable {image : Image} {address count i : Nat} {bs : List UInt8}

/-- Two bytes make a word, the first one low unless the high one comes first. -/
theorem toNat_combine (bigEndian : Bool) (first second : UInt8) :
    (combine bigEndian first second).toNat =
      if bigEndian then 0x100 * first.toNat + second.toNat
      else 0x100 * second.toNat + first.toNat := by
  have hjoin (high low : UInt8) :
      (high.toUInt16 <<< 8 ||| low.toUInt16).toNat = 0x100 * high.toNat + low.toNat := by
    have hlow := low.toNat_lt
    have hhigh := high.toNat_lt
    have hshift : high.toUInt16.toNat <<< ((8 : UInt16).toNat % 16) % 2 ^ 16 =
        2 ^ 8 * high.toNat := by
      simp [Nat.shiftLeft_eq]
      omega
    rw [UInt16.toNat_or, UInt16.toNat_shiftLeft, hshift, UInt8.toNat_toUInt16,
      ← Nat.two_pow_add_eq_or_of_lt hlow]
  cases bigEndian with
  | true => exact hjoin first second
  | false => exact hjoin second first

/-- A window that is accepted is the one asked for. -/
theorem window_eq_ok {data : Array UInt8} {offset length : Nat} {origin : UInt16}
    (h : window data offset origin length = .ok image) :
    image.data = data ∧ image.offset = offset ∧ image.origin = origin ∧ image.length = length := by
  unfold window at h
  split at h
  · obtain rfl := Except.ok.inj h
    exact ⟨rfl, rfl, rfl, rfl⟩
  · exact absurd h (by simp)

/-! ### Positions -/

theorem contains_iff :
    image.contains address = true ↔
      image.origin.toNat ≤ address ∧ address < image.origin.toNat + image.length := by
  rw [contains, Bool.and_eq_true, decide_eq_true_eq, decide_eq_true_eq, stop]

/-- **The position that an address stands for** lies in the buffer, as far from the start of the
window as the address from its origin. -/
theorem index?_eq_some :
    image.index? address = some i ↔
      i + image.origin.toNat = image.offset + address ∧ i < image.data.size := by
  unfold index?
  split
  · rw [Option.some.injEq]
    omega
  · simp only [reduceCtorEq, false_iff]
    omega

/-- An address further on stands for a position further on, up to the end of the buffer. -/
theorem byte?_add (h : image.index? address = some i) (k : Nat) :
    image.byte? (address + k) = image.data[i + k]? := by
  obtain ⟨hposition, -⟩ := index?_eq_some.1 h
  by_cases hin : i + k < image.data.size
  · have hindex : image.index? (address + k) = some (i + k) :=
      index?_eq_some.2 ⟨by omega, hin⟩
    rw [byte?, hindex, Option.bind_some]
  · have hindex : image.index? (address + k) = none := by
      rw [Option.eq_none_iff_forall_ne_some]
      intro j hj
      have hj := index?_eq_some.1 hj
      omega
    rw [byte?, hindex, Option.bind_none, Array.getElem?_eq_none (by omega)]

/-- A byte is read exactly at the addresses that stand for a position. -/
theorem index?_of_byte? {b : UInt8} (h : image.byte? address = some b) :
    ∃ i, image.index? address = some i :=
  (Option.bind_eq_some_iff.1 h).imp fun _ h => h.1

/-- **Where a byte is read.** -/
theorem byte?_eq_some {b : UInt8} :
    image.byte? address = some b ↔ ∃ i, ∃ hi : i < image.data.size,
      i + image.origin.toNat = image.offset + address ∧ image.data[i] = b := by
  rw [byte?, Option.bind_eq_some_iff]
  constructor
  · rintro ⟨i, hindex, hget⟩
    obtain ⟨hin, rfl⟩ := Array.getElem?_eq_some_iff.1 hget
    exact ⟨i, hin, (index?_eq_some.1 hindex).1, rfl⟩
  · rintro ⟨i, hin, hposition, rfl⟩
    exact ⟨i, index?_eq_some.2 ⟨hposition, hin⟩, Array.getElem?_eq_getElem hin⟩

/-- A word is read exactly if its two bytes are. -/
theorem word?_eq_some {bigEndian : Bool} {w : UInt16} :
    image.word? address bigEndian = some w ↔
      ∃ x y, image.byte? address = some x ∧ image.byte? (address + 1) = some y ∧
        w.toNat = if bigEndian then 0x100 * x.toNat + y.toNat else 0x100 * y.toNat + x.toNat := by
  simp only [word?, Option.bind_eq_some_iff, Option.map_eq_some_iff, ← toNat_combine,
    UInt16.toNat_inj]
  constructor
  · rintro ⟨x, hx, y, hy, rfl⟩
    exact ⟨x, y, hx, hy, rfl⟩
  · rintro ⟨x, y, hx, hy, rfl⟩
    exact ⟨x, hx, y, hy, rfl⟩

/-! ### Runs of bytes -/

/-- A run of bytes that is read is a part of the buffer. -/
theorem bytes?_eq_some (h : image.bytes? address count = some bs) :
    ∃ i, image.index? address = some i ∧ i + count ≤ image.data.size ∧
      bs = (image.data.extract i (i + count)).toList := by
  obtain ⟨i, hindex, h⟩ := Option.bind_eq_some_iff.1 h
  split at h
  · rename_i hin
    exact ⟨i, hindex, hin, (Option.some.inj h).symm⟩
  · exact absurd h (by simp)

/-- **A run of bytes is read exactly if each byte of it is.** -/
theorem bytes?_eq_some_iff (hcount : 1 ≤ count) :
    image.bytes? address count = some bs ↔
      bs.length = count ∧ ∀ k (hk : k < bs.length), image.byte? (address + k) = some bs[k] := by
  constructor
  · intro h
    obtain ⟨i, hindex, hin, rfl⟩ := bytes?_eq_some h
    refine ⟨by rw [Array.length_toList, Array.size_extract]; omega, fun k hk => ?_⟩
    rw [Array.length_toList, Array.size_extract] at hk
    rw [byte?_add hindex, Array.getElem_toList, Array.getElem_extract,
      Array.getElem?_eq_getElem]
  · rintro ⟨rfl, hbytes⟩
    obtain ⟨i, hindex⟩ : ∃ i, image.index? address = some i := index?_of_byte? (hbytes 0 hcount)
    have hget (k : Nat) (hk : k < bs.length) : image.data[i + k]? = some bs[k] :=
      (byte?_add hindex k).symm.trans (hbytes k hk)
    -- The last byte of the run is in the buffer, so the whole run is.
    obtain ⟨hlast, -⟩ := Array.getElem?_eq_some_iff.1 (hget (bs.length - 1) (by omega))
    have hin : i + bs.length ≤ image.data.size := by omega
    rw [bytes?, hindex, Option.bind_some, if_pos hin, Option.some.injEq]
    refine List.ext_getElem (by rw [Array.length_toList, Array.size_extract]; omega) ?_
    intro k hk hk'
    rw [Array.getElem_toList, Array.getElem_extract]
    exact (Array.getElem?_eq_some_iff.1 (hget k hk')).2

/-- **The bytes from an address of the window are a run that is read from there.** -/
theorem bytes?_windowFrom (h : image.contains address = true) :
    image.bytes? address (image.stop - address) = some (image.windowFrom address) := by
  have hb := image.inBuffer
  have hin := contains_iff.1 h
  unfold stop
  have hindex : image.index? address =
      some (image.offset + (address - image.origin.toNat)) :=
    index?_eq_some.2 ⟨by omega, by omega⟩
  rw [bytes?, hindex, Option.bind_some, if_pos (by omega), windowFrom, if_pos h]
  congr 3
  omega

/-- The bytes from an address of the window are the bytes there, up to the end of the window. -/
theorem map_windowFrom (h : image.contains address = true) :
    (image.windowFrom address).map some =
      (List.range' address (image.stop - address)).map image.byte? := by
  have hcount : 1 ≤ image.stop - address := by
    have hin := contains_iff.1 h
    unfold stop
    omega
  obtain ⟨hlength, hbytes⟩ := (bytes?_eq_some_iff hcount).1 (bytes?_windowFrom h)
  refine List.ext_getElem (by simp [hlength]) fun k hk _ => ?_
  rw [List.length_map] at hk
  rw [List.getElem_map, List.getElem_map, List.getElem_range', Nat.one_mul, hbytes k hk]

/-! ### All reads -/

/-- **What reads from an address show**, for an image of a window of a buffer. -/
structure ReadsAgree (image : Image) (data : Array UInt8) (offset : Nat) (origin : UInt16)
    (length address : Nat) : Prop where
  /-- The byte at the address is the one as far from the start of the window as the address is from
  the origin, if the buffer has it. -/
  byte : ∀ b, image.byte? address = some b ↔
    ∃ i, ∃ hi : i < data.size, i + origin.toNat = offset + address ∧ data[i] = b
  /-- A word is made of the byte at the address and the one behind it. -/
  word : ∀ bigEndian w, image.word? address bigEndian = some w ↔
    ∃ x y, image.byte? address = some x ∧ image.byte? (address + 1) = some y ∧
      w.toNat = if bigEndian then 0x100 * x.toNat + y.toNat else 0x100 * y.toNat + x.toNat
  /-- A run of bytes is made of the bytes from the address on. -/
  bytes : ∀ count bs, 1 ≤ count → (image.bytes? address count = some bs ↔
    bs.length = count ∧ ∀ k (hk : k < bs.length), image.byte? (address + k) = some bs[k])
  /-- The walk decodes the bytes from an address of the window up to its end, and no others. -/
  window : (image.windowFrom address).map some =
    if origin.toNat ≤ address ∧ address < origin.toNat + length then
      (List.range' address (origin.toNat + length - address)).map image.byte?
    else []
  /-- It may decode the first few of them only. -/
  windowUpTo : ∀ count, image.windowUpTo address count = (image.windowFrom address).take count
  /-- The position of a byte lies in the buffer. -/
  index_lt : ∀ i, image.index? address = some i → i < data.size
  /-- So does a run of bytes. -/
  run_le : ∀ count bs, image.bytes? address count = some bs →
    ∃ i, image.index? address = some i ∧ i + count ≤ data.size
  /-- So do the bytes up to the end of the window. -/
  slice_le : image.contains address = true → origin.toNat ≤ address ∧
    offset + (address - origin.toNat) < offset + length ∧ offset + length ≤ data.size

/-- **All ways to read an image agree and stay inside the buffer**, at every address. Addresses are
not wrapped, so a run of bytes may begin before the window and end behind it. -/
theorem reads_agree {data : Array UInt8} {offset length : Nat} {origin : UInt16}
    (h : window data offset origin length = .ok image) (address : Nat) :
    image.ReadsAgree data offset origin length address := by
  obtain ⟨rfl, rfl, rfl, rfl⟩ := window_eq_ok h
  refine ⟨fun b => ?_, fun bigEndian w => ?_, fun count bs => bytes?_eq_some_iff, ?_,
    windowUpTo_eq_take address, fun i hi => (index?_eq_some.1 hi).2, fun count bs hbs => ?_,
    fun hin => ?_⟩
  · exact byte?_eq_some
  · exact word?_eq_some
  · split
    · rename_i hin
      exact map_windowFrom (contains_iff.2 hin)
    · rename_i hout
      rw [windowFrom, if_neg (mt contains_iff.1 hout), List.map_nil]
  · obtain ⟨i, hindex, hin, -⟩ := bytes?_eq_some hbs
    exact ⟨i, hindex, hin⟩
  · obtain ⟨hlo, hhi⟩ := contains_iff.1 hin
    exact ⟨hlo, by omega, image.inBuffer⟩

/-- Five bytes with a window of three at `4000`. -/
def readSample : Except OutOfBounds Image := window #[0x00, 0x21, 0x03, 0x40, 0xC9] 1 0x4000 3

/-- From the second byte of the window on, the window has two bytes more, and the buffer three. -/
theorem reads_agree_sample :
    ∃ image, readSample = .ok image ∧
      image.ReadsAgree #[0x00, 0x21, 0x03, 0x40, 0xC9] 1 0x4000 3 0x4001 ∧
      image.windowFrom 0x4001 = [0x03, 0x40] ∧ image.bytes? 0x4001 3 = some [0x03, 0x40, 0xC9] ∧
      image.byte? 0x3FFE = none := by
  have h : readSample =
      .ok ⟨#[0x00, 0x21, 0x03, 0x40, 0xC9], 1, 0x4000, 3, by decide, by decide⟩ := rfl
  exact ⟨_, h, reads_agree h 0x4001, by decide, by decide, by decide⟩

end Image
end Disassembly
