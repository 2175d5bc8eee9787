/-
# Built-in block programs

Programs for common kinds of data and for calls to well-known ROM routines, by name.
-/

import Disassembly.Directive.Basic

namespace Disassembly

/-- Whether a program renders a data block or searches a pattern block. -/
inductive PresetKind
  | data
  | pattern

/-- A built-in block program. -/
structure Preset where
  name : String
  kind : PresetKind
  summary : String
  program : String

namespace Preset

/-- A directive that runs the program from `first` to `last`. -/
def directive (p : Preset) (first last : UInt16) : Directive :=
  match p.kind with
  | .data => ⟨first, last, .dataBlock p.program⟩
  | .pattern => ⟨first, last, .patternBlock p.program⟩

/-- The program for bytes that cannot be decoded. -/
def rawBytes : String := "%PByteDump()"

/-- Every built-in program. -/
def all : List Preset := [
  ⟨"bytes", .data, "DEFB lines of eight bytes", rawBytes⟩,
  ⟨"bytes-decimal", .data, "DEFB lines of eight decimal bytes", "%PByteDump(\"dec\")"⟩,
  ⟨"bytes-signed", .data, "DEFB lines of eight signed decimal bytes",
    "%PByteDump(\"dec\", true)"⟩,
  ⟨"words", .data, "DEFW lines of four words", "%PWordDump()"⟩,
  ⟨"words-big-endian", .data, "DEFW lines of four big-endian words",
    "%PWordDump(big_endian=true)"⟩,
  ⟨"message", .data, "Text running to the end of the block", "%PMessageDump()"⟩,
  ⟨"message-zero", .data, "Text ended by a zero byte", "%PMessageDump(\"zero\")"⟩,
  ⟨"message-highbit", .data, "Text whose last character has bit 7 set",
    "%PMessageDump(\"highbit\")"⟩,
  ⟨"message-len1", .data, "Text after a length byte", "%PMessageDump(\"len1\")"⟩,
  ⟨"message-len2", .data, "Text after a length word", "%PMessageDump(\"len2le\")"⟩,
  ⟨"message-len2-big-endian", .data, "Text after a big-endian length word",
    "%PMessageDump(\"len2be\")"⟩,
  ⟨"graphics", .data, "One binary DEFB per line, for character and sprite bitmaps",
    "%F03%L%(%?LE8F8E%)%(%SDEFB%T%B2F%E%)"⟩,
  ⟨"floats", .data, "Five-byte floating point numbers, one per line",
    "%L%(%?LE8F8E%)%(%SDEFF%T%G2F%E%)"⟩,
  ⟨"vectors", .data, "Address tables, one referenced DEFW per line",
    "%L%(%?LE8F8E%)%(%SDEFW%T%A3F%E%)"⟩,
  ⟨"save-bytes", .pattern, "Comment calls to the tape save routine",
    "%(%PFindBytes(\"CD C2 04\", \"Save IX,DE bytes\")%)"⟩,
  ⟨"load-bytes", .pattern, "Comment calls to the tape load routine",
    "%(%PFindBytes(\"CD 56 05\", \"Load IX,DE bytes\")%)"⟩,
  ⟨"print-string", .pattern, "Comment calls to the string printer",
    "%(%PFindBytes(\"CD 3C 20\", \"Print BC bytes from DE\")%)"⟩,
  ⟨"rom-calls", .pattern, "Comment calls to common ROM routines",
    "%(%?BO%PFindBytes(\"CD C2 04\", \"Save IX,DE bytes\")" ++
    "%PFindBytes(\"CD 56 05\", \"Load IX,DE bytes\")" ++
    "%PFindBytes(\"CD 3C 20\", \"Print BC bytes from DE\")" ++
    "%PFindBytes(\"CD 01 16\", \"Open channel A\")" ++
    "%PFindBytes(\"CD B5 03\", \"Beep for DE cycles of HL\")" ++
    "%PFindBytes(\"CD 6B 0D\", \"Clear the screen\")%)"⟩]

/-- The built-in program with the given name, in any case. -/
def ofName? (name : String) : Option Preset :=
  all.find? fun p => p.name = name.toLower

end Preset
end Disassembly
