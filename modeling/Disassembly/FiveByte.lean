/-
# Five-byte numbers

The number format of the Spectrum calculator. A zero in the first byte marks a small integer: a sign
byte and a word, low byte first. Any other first byte is an exponent, biased by 128, and the four
bytes after it are a mantissa, high byte first, below one and at least a half; the top bit of the
mantissa is always one, and its place holds the sign.

Every such number is an integer times a power of two, and is valued exactly. It is written with nine
significant digits, of which zeros at the end of the fraction are dropped, and in exponent form
outside `0.00001` to `999999999`.
-/

import Disassembly.Numeral.Render

namespace Disassembly

/-- Renders the five-byte numbers of a machine. -/
structure FloatCodec where
  render : UInt8 → UInt8 → UInt8 → UInt8 → UInt8 → String

/-- The number `mantissa * 2 ^ exponent`, or its negative. -/
structure Dyadic where
  negative : Bool
  mantissa : Nat
  exponent : Int

namespace Dyadic

/-- An integer. -/
def ofInt (n : Int) : Dyadic := ⟨n < 0, n.natAbs, 0⟩

/-- The numerator of the absolute value. -/
def numerator (x : Dyadic) : Nat := x.mantissa <<< x.exponent.toNat

/-- The denominator of the absolute value. -/
def denominator (x : Dyadic) : Nat := 1 <<< (-x.exponent).toNat

/-- The bits of the IEEE double with the same value. Right for a mantissa below `2 ^ 53` and an
exponent that keeps the value in the normal range. -/
def doubleBits (x : Dyadic) : Nat :=
  if x.mantissa = 0 then 0
  else
    let k := Nat.log2 x.mantissa
    let biased := (x.exponent + k + 1023).toNat
    (x.negative.toNat <<< 63) + (biased <<< 52) + ((x.mantissa - (1 <<< k)) <<< (52 - k))

end Dyadic

namespace Significant

/-- The quotient rounded to the nearest integer, a half to the even one. -/
def roundDiv (n d : Nat) : Nat :=
  let q := n / d
  let r := 2 * (n % d)
  if d < r ∨ (r = d ∧ q % 2 = 1) then q + 1 else q

/-- How often `n` can be multiplied by ten, at most `fuel` times, before it reaches `d`. -/
def stepsUpTo (n d : Nat) : Nat → Nat
  | 0 => 0
  | fuel + 1 => if d ≤ n then 0 else stepsUpTo (10 * n) d fuel + 1

/-- The decimal exponent of `n / d`: the `x` with `10 ^ x ≤ n / d < 10 ^ (x + 1)`. Right for positive
fractions above `10 ^ -64`. -/
def exponent (n d : Nat) : Int :=
  if d ≤ n then ((Nat.toDigits 10 (n / d)).length : Int) - 1
  else -(stepsUpTo n d 64 : Int)

/-- The first `count` digits of `n / d`, rounded, and the decimal exponent after rounding. -/
def rounded (count n d : Nat) : Nat × Int :=
  let x := exponent n d
  let shift := (count : Int) - 1 - x
  let value := roundDiv (n * Nat.pow 10 shift.toNat) (d * Nat.pow 10 (-shift).toNat)
  if value = Nat.pow 10 count then (Nat.pow 10 (count - 1), x + 1) else (value, x)

/-- Digits without the zeros at their end. -/
def dropZeros (digits : List Char) : List Char :=
  (digits.reverse.dropWhile (· = '0')).reverse

/-- A whole part and a fraction, without zeros at the end of the fraction and without a point before
an empty one. -/
def withPoint (whole fraction : List Char) : List Char :=
  match dropZeros fraction with
  | [] => whole
  | digits => whole ++ '.' :: digits

/-- Digits with the point in its place. -/
def positional (digits : List Char) (exponent : Int) : List Char :=
  if exponent < 0 then
    withPoint ['0'] (List.replicate (-exponent - 1).toNat '0' ++ digits)
  else
    withPoint (digits.take (exponent + 1).toNat) (digits.drop (exponent + 1).toNat)

/-- Digits with the point after the first one, and the exponent. -/
def scientific (digits : List Char) (exponent : Int) : List Char :=
  withPoint (digits.take 1) (digits.drop 1) ++ 'E' :: (Numeral.integer exponent).toList

/-- How many significant digits are written. -/
def count : Nat := 9

/-- A number with nine significant digits. -/
def render (x : Dyadic) : String :=
  if x.mantissa = 0 then "0"
  else
    let (value, exponent) := rounded count x.numerator x.denominator
    let digits := Numeral.fixedDigits 10 count value
    let text :=
      if -5 ≤ exponent ∧ exponent < count then positional digits exponent
      else scientific digits exponent
    (if x.negative then "-" else "") ++ String.ofList text

end Significant

namespace Spectrum

/-- The value of a five-byte number. -/
def value (b0 b1 b2 b3 b4 : UInt8) : Dyadic :=
  if b0 = 0 then
    let word : Int := b2.toNat + 256 * b3.toNat
    Dyadic.ofInt (if b1 = 0xFF then word - 0x10000 else word)
  else
    let low := 0x1000000 * (b1.toNat % 128) + 0x10000 * b2.toNat + 0x100 * b3.toNat + b4.toNat
    ⟨128 ≤ b1.toNat, 0x80000000 + low, (b0.toNat : Int) - 160⟩

/-- A five-byte number as text. -/
def renderFloat (b0 b1 b2 b3 b4 : UInt8) : String :=
  let x := value b0 b1 b2 b3 b4
  if b0 = 0 then Numeral.integer (if x.negative then -(x.mantissa : Int) else x.mantissa)
  else Significant.render x

/-- The five-byte numbers of the Spectrum. -/
def floats : FloatCodec := ⟨renderFloat⟩

end Spectrum
end Disassembly
