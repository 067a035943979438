import Wordcode.Command.FileSystem
import Wordcode.Main
import Wordcode.Proofs.Assembly.Walk
import Wordcode.Proofs.Transform
import Wordcode.Proofs.Host.Items
import Wordcode.Proofs.Host.Filled
import Wordcode.Proofs.Host.Names
import Wordcode.Proofs.Interpreter.Lines
import Wordcode.Proofs.ModuleText
import Wordcode.Proofs.Assembly.Accounts
import Wordcode.Proofs.Host.Holes
import Wordcode.Proofs.Warnings
import Wordcode.Proofs.Assembly.Calls
import Wordcode.Proofs.Assembly.Faults
import Wordcode.Proofs.Faults
import Wordcode.Proofs.Interpreter.Blocks
import Wordcode.Proofs.Interpreter.Dispatch
import Wordcode.Proofs.Assembly.Tiling
import Wordcode.Proofs.Assembly.Failures
import Wordcode.Interpreter.Machine
import Wordcode.Proofs.Interpreter.Frame
import Wordcode.Proofs.Command.FileSystem
import Wordcode.Proofs.Command.Run
import Wordcode.Proofs.Assembly.Skipping
import Wordcode.Proofs.Interpreter.Cases
import Wordcode.Proofs.Disassembly
import Wordcode.Proofs.Listing.Places
import Wordcode.Proofs.Report.Marks
import Wordcode.Proofs.Report.Pointing
import Wordcode.Proofs.FirstSeen
import Wordcode.Proofs.Symbols
import Wordcode.Proofs.Assembly.Registrations
import Wordcode.Proofs.Assembly.Table
import Wordcode.Proofs.Planning
import Wordcode.Proofs.Assembly.Slots
import Wordcode.Proofs.Contents
import Wordcode.Proofs.Host.Scanning
import Wordcode.Proofs.Patching
import Wordcode.Proofs.Patched
import Wordcode.Proofs.Repatched
import Wordcode.Proofs.Listing.Errors
import Wordcode.Proofs.Host.Conservation
import Wordcode.Proofs.Host.Rendering
import Wordcode.Proofs.Listing.Bounds
import Wordcode.Proofs.Host.Commas
import Wordcode.Proofs.Interpreter.Decoding
import Wordcode.Proofs.Report.Colour
import Wordcode.Proofs.Assembly.Signatures
