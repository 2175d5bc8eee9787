/-
# Quoted texts

Messages show a text or a character between quotes, with everything that could be mistaken or not
seen spelled out: the quote itself and the backslash get a backslash, the tab, the line breaks and
the null character have a letter, and any other character that is not printable is written as its
code point between braces.
-/

import Disassembly.Text.Printable

namespace Disassembly
namespace Text

/-- A character as it stands between quotes of the kind `quote`. -/
def escape (quote c : Char) : String :=
  if c = '\x00' then "\\0"
  else if c = '\t' then "\\t"
  else if c = '\r' then "\\r"
  else if c = '\n' then "\\n"
  else if c = '\\' ∨ c = quote then String.ofList ['\\', c]
  else if isPrintable c then String.singleton c
  else "\\u\x7b" ++ String.ofList (Nat.toDigits 16 c.toNat) ++ "\x7d"

/-- A text between double quotes. -/
def quote (s : String) : String :=
  "\"" ++ String.join (s.toList.map (escape '"')) ++ "\""

/-- A character between single quotes. -/
def quoteChar (c : Char) : String :=
  "'" ++ escape '\'' c ++ "'"

end Text
end Disassembly
