/-
# Byte offsets into a text

Positions in the stored form of a directive count the bytes of the UTF-8 form of the text, so a
position may fall inside a character. Here are the length of a text in bytes, the cut at a byte
offset, which exists only between two characters, and the pieces of a text between separators.
-/

namespace Disassembly
namespace Text

/-- How many bytes the UTF-8 form of the text has. -/
def byteLength : List Char → Nat
  | [] => 0
  | c :: cs => c.utf8Size + byteLength cs

/-- The text up to byte `n` and the text from there on, or `none` when byte `n` lies inside a
character or past the end. -/
def splitAtByte? (n : Nat) : List Char → Option (List Char × List Char)
  | [] => if n = 0 then some ([], []) else none
  | c :: cs =>
    if n = 0 then some ([], c :: cs)
    else if c.utf8Size ≤ n then
      (splitAtByte? (n - c.utf8Size) cs).map fun parts => (c :: parts.1, parts.2)
    else none

/-- The pieces of a text between occurrences of `separator`; one piece when there is none. -/
def splitOn (separator : Char) : List Char → List (List Char)
  | [] => [[]]
  | c :: cs =>
    if c = separator then [] :: splitOn separator cs
    else match splitOn separator cs with
      | [] => [[c]]
      | piece :: pieces => (c :: piece) :: pieces

/-- At most `n + 1` pieces of a text between occurrences of `separator`; the last piece holds what
is left, separators included. -/
def splitOnUpTo (separator : Char) : Nat → List Char → List (List Char)
  | _, [] => [[]]
  | 0, cs => [cs]
  | n + 1, c :: cs =>
    if c = separator then [] :: splitOnUpTo separator n cs
    else match splitOnUpTo separator (n + 1) cs with
      | [] => [[c]]
      | piece :: pieces => (c :: piece) :: pieces

end Text
end Disassembly
