/-
# Character sets

A character set tells how a character code renders and how a literal character of a script stands in
a listing. The character set of the 48K Spectrum has control codes with parameter bytes, printable
characters that differ from ASCII in three places, block graphics, user-defined graphics and
keyword tokens.
-/

namespace Disassembly

/-- How a character code renders. -/
inductive Glyph
  | printable (c : Char)
  /-- A control code, followed by this many parameter bytes. -/
  | control (operands : Nat)
  /-- A graphic of two by two blocks. -/
  | graphic (c : Char)
  /-- A user-defined graphic, by its letter. -/
  | userDefined (letter : Char)
  /-- A keyword token. -/
  | command (keyword : String)

/-- A mapping from character codes to glyphs. -/
structure CharacterSet where
  glyph : UInt8 → Glyph
  /-- The character that a literal character of a script stands for. -/
  translate : Char → Char

namespace Spectrum

/-- The keywords of the tokens from code `A5` on. -/
def keywords : Array String := #[
  "RND", "INKEY$", "PI", "FN", "POINT", "SCREEN$", "ATTR", "AT", "TAB", "VAL$", "CODE", "VAL",
  "LEN", "SIN", "COS", "TAN", "ASN", "ACS", "ATN", "LN", "EXP", "INT", "SQR", "SGN", "ABS",
  "PEEK", "IN", "USR", "STR$", "CHR$", "NOT", "BIN", "OR", "AND", "<=", ">=", "<>", "LINE",
  "THEN", "TO", "STEP", "DEF FN", "CAT", "FORMAT", "MOVE", "ERASE", "OPEN #", "CLOSE #",
  "MERGE", "VERIFY", "BEEP", "CIRCLE", "INK", "PAPER", "FLASH", "BRIGHT", "INVERSE", "OVER",
  "OUT", "LPRINT", "LLIST", "STOP", "READ", "DATA", "RESTORE", "NEW", "BORDER", "CONTINUE",
  "DIM", "REM", "FOR", "GO TO", "GO SUB", "INPUT", "LOAD", "LIST", "LET", "PAUSE", "NEXT",
  "POKE", "PRINT", "PLOT", "RUN", "SAVE", "RANDOMIZE", "IF", "CLS", "DRAW", "CLEAR", "RETURN",
  "COPY"]

/-- The block graphics from code `80` on. -/
def blockGraphics : Array Char := #[
  ' ', '▝', '▘', '▀', '▗', '▐', '▚', '▜', '▖', '▞', '▌', '▛', '▄', '▟', '▙', '█']

/-- The three characters that stand for others. -/
def translate (c : Char) : Char :=
  if c = '^' then '↑'
  else if c.toNat = 0x60 then '£'
  else if c.toNat = 0x7F then '©'
  else c

/-- The glyph of a character code. -/
def glyph (code : UInt8) : Glyph :=
  let n := code.toNat
  if 0x10 ≤ n ∧ n ≤ 0x15 then .control 1
  else if 0x16 ≤ n ∧ n ≤ 0x17 then .control 2
  else if n ≤ 0x1F then .control 0
  else if n ≤ 0x7F then .printable (translate (Char.ofNat n))
  else if n ≤ 0x8F then .graphic (blockGraphics.getD (n - 0x80) ' ')
  else if n ≤ 0xA4 then .userDefined (Char.ofNat ('A'.toNat + (n - 0x90)))
  else .command (keywords.getD (n - 0xA5) "")

/-- The character set of the 48K Spectrum. -/
def charset : CharacterSet := ⟨glyph, translate⟩

end Spectrum
end Disassembly
