/-
# Images

An image is a window of a buffer, seen through the 16-bit address space: address `a` stands for the
byte at position `offset + a - origin` of the buffer. The walk decodes bytes of the window only,
while scripts may read the whole buffer, on either side of the window. Addresses of reads are not
wrapped, so a read past `FFFF` looks at the byte after the one at `FFFF`.
-/

import Disassembly.Numeral.Render

namespace Disassembly

/-- A window of `length` bytes from position `offset` of a buffer, whose first byte has the address
`origin`. -/
structure Image where
  /-- The whole buffer. -/
  data : Array UInt8
  /-- Where the window starts in the buffer. -/
  offset : Nat
  /-- The address of the first byte of the window. -/
  origin : UInt16
  /-- How many bytes the window has. -/
  length : Nat
  /-- The window lies inside the buffer. -/
  inBuffer : offset + length ≤ data.size
  /-- The window lies inside the address space. -/
  inSpace : origin.toNat + length ≤ 0x10000

/-- A window that lies partly outside its buffer or outside the address space. -/
structure OutOfBounds where
  offset : Nat
  length : Nat
  origin : UInt16
  available : Nat

/-- The message for a window that does not fit. -/
def OutOfBounds.message (e : OutOfBounds) : String :=
  "Window of " ++ Numeral.decimal e.length ++ " bytes at offset " ++ Numeral.decimal e.offset ++
    " (origin " ++ Numeral.hexWord e.origin ++ ") does not fit a buffer of " ++
    Numeral.decimal e.available ++ " bytes"

namespace Image

/-- The window of a buffer, if it fits. -/
def window (data : Array UInt8) (offset : Nat) (origin : UInt16) (length : Nat) :
    Except OutOfBounds Image :=
  if h : offset + length ≤ data.size ∧ origin.toNat + length ≤ 0x10000 then
    .ok ⟨data, offset, origin, length, h.1, h.2⟩
  else .error ⟨offset, length, origin, data.size⟩

/-- One past the last address of the window. -/
def stop (image : Image) : Nat := image.origin.toNat + image.length

/-- The last address of the window, when the window is not empty. -/
def last (image : Image) : UInt16 := UInt16.ofNat (image.stop - 1)

/-- Whether the address lies in the window. -/
def contains (image : Image) (address : Nat) : Bool :=
  image.origin.toNat ≤ address && address < image.stop

/-- The position in the buffer that an address stands for. -/
def index? (image : Image) (address : Nat) : Option Nat :=
  if image.origin.toNat ≤ image.offset + address ∧
      image.offset + address - image.origin.toNat < image.data.size then
    some (image.offset + address - image.origin.toNat)
  else none

/-- The byte at an address, anywhere in the buffer. -/
def byte? (image : Image) (address : Nat) : Option UInt8 :=
  (image.index? address).bind fun i => image.data[i]?

/-- Two bytes as a word, the first one low unless `bigEndian`. -/
def combine (bigEndian : Bool) (first second : UInt8) : UInt16 :=
  if bigEndian then first.toUInt16 <<< 8 ||| second.toUInt16
  else second.toUInt16 <<< 8 ||| first.toUInt16

/-- The word at an address, anywhere in the buffer. -/
def word? (image : Image) (address : Nat) (bigEndian : Bool) : Option UInt16 :=
  (image.byte? address).bind fun first =>
    (image.byte? (address + 1)).map fun second => combine bigEndian first second

/-- The `count` bytes from an address on, if the buffer holds them all. -/
def bytes? (image : Image) (address count : Nat) : Option (List UInt8) :=
  (image.index? address).bind fun i =>
    if i + count ≤ image.data.size then some (image.data.extract i (i + count)).toList else none

/-- The bytes from an address in the window to the end of the window; none for other addresses. -/
def windowFrom (image : Image) (address : Nat) : List UInt8 :=
  if image.contains address then
    (image.data.extract (image.offset + (address - image.origin.toNat))
      (image.offset + image.length)).toList
  else []

/-- The first `count` of the bytes from an address to the end of the window. -/
def windowUpTo (image : Image) (address count : Nat) : List UInt8 :=
  if image.contains address then
    let start := image.offset + (address - image.origin.toNat)
    (image.data.extract start (min (start + count) (image.offset + image.length))).toList
  else []

end Image
end Disassembly
