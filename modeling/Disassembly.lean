import Disassembly.Main
import Disassembly.Proofs.Directive.RoundTrip
import Disassembly.Proofs.Disassemble.Addresses
import Disassembly.Proofs.Disassemble.Order
import Disassembly.Proofs.Script.CurrentAddress
import Disassembly.Proofs.Script.PatternLayout
import Disassembly.Proofs.Script.Shrinking
import Disassembly.Proofs.Script.Termination
import Disassembly.Proofs.Walk.Comments
import Disassembly.Proofs.Walk.PlacedComments
import Disassembly.Proofs.Walk.Scopes
import Disassembly.Proofs.Script.Frame
import Disassembly.Proofs.Disassemble.Blocks
import Disassembly.Proofs.Z80.Sweep
import Disassembly.Proofs.Disassemble.Recovery
import Disassembly.Proofs.Walk.Termination
import Disassembly.Proofs.Disassemble.Window
import Disassembly.Proofs.Directive.File
import Disassembly.Proofs.Project.Listing
import Disassembly.Proofs.Listing.Reading
import Disassembly.Proofs.Disassemble.FurtherComment
import Disassembly.Proofs.Overlay.Live
import Disassembly.Proofs.Z80.Template
import Disassembly.Proofs.Z80.Truncation
import Disassembly.Proofs.Routine.BlockDump
import Disassembly.Proofs.Script.Ending
import Disassembly.Proofs.Script.DumpPrograms
import Disassembly.Proofs.Routine.MessageEnd
import Disassembly.Proofs.Routine.MessageLines
import Disassembly.Proofs.Routine.WrittenCall
import Disassembly.Proofs.Script.PatternPrograms
import Disassembly.Proofs.Routine.MessageRun
import Disassembly.Proofs.Routine.MessageBlock
import Disassembly.Proofs.Numeral.Lossless
import Disassembly.Proofs.Routine.MessageReading
import Disassembly.Proofs.Disassemble.Progress
import Disassembly.Proofs.FiveByte.Decimal
import Disassembly.Proofs.FiveByte.Rendering
import Disassembly.Proofs.Script.Signals
import Disassembly.Proofs.Script.ErrorPlaces
import Disassembly.Proofs.Project.Overrides
import Disassembly.Proofs.Script.Arithmetic
import Disassembly.Proofs.Script.ShortCircuit
