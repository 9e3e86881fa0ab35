import Tribyte.Assembly.Block
import Tribyte.Assembly.Layout
import Tribyte.Assembly.ObjectCode
import Tribyte.Assembly.Symbols
import Tribyte.Command.Arguments
import Tribyte.Command.Assembler
import Tribyte.Command.Directory
import Tribyte.Command.FileAccess
import Tribyte.Command.Inspector
import Tribyte.Command.Report
import Tribyte.Command.Settings
import Tribyte.Command.Simulator
import Tribyte.Command.Tool
import Tribyte.Instruction.Form
import Tribyte.Instruction.Opcode
import Tribyte.LittleEndian
import Tribyte.Loading
import Tribyte.Machine.Registers
import Tribyte.Machine.Run
import Tribyte.Machine.Step
import Tribyte.Main
import Tribyte.Memory
import Tribyte.Object.File
import Tribyte.Object.Image
import Tribyte.Object.Listing
import Tribyte.Object.Record
import Tribyte.Source.Error
import Tribyte.Source.Line
import Tribyte.Source.Literal
import Tribyte.Source.Name
import Tribyte.Source.Statement
import Tribyte.Text.Affix
import Tribyte.Text.Blank
import Tribyte.Text.Column
import Tribyte.Text.Hexadecimal
import Tribyte.Text.Invisible
import Tribyte.Text.Json
import Tribyte.Text.JsonReader
import Tribyte.Text.Numeral
import Tribyte.Text.Quoted
import Tribyte.Text.Utf8
import Tribyte.Word
import Tribyte.Proofs.Checked
import Tribyte.Proofs.Memory.Contents
import Tribyte.Proofs.Text.Utf8
import Tribyte.Proofs.Object.Spelling
import Tribyte.Proofs.Object.RoundTrip
import Tribyte.Proofs.Object.Canonical
import Tribyte.Proofs.Object.Streaming
import Tribyte.Proofs.Source.WellFormed
import Tribyte.Proofs.Assembly.Locations
import Tribyte.Proofs.Assembly.Blocks
import Tribyte.Proofs.Assembly.Program
import Tribyte.Proofs.Assembly.Acceptance
import Tribyte.Proofs.Assembly.ObjectProgram
import Tribyte.Proofs.Loading.Replay
import Tribyte.Proofs.Loading.Sequence
import Tribyte.Proofs.Loading.Placement
import Tribyte.Proofs.Loading.Loadability
import Tribyte.Proofs.Machine.Steps
import Tribyte.Proofs.Machine.Traps
import Tribyte.Proofs.Machine.Registers
import Tribyte.Proofs.Machine.Runs
import Tribyte.Proofs.Machine.Lockstep
import Tribyte.Proofs.Machine.Input
import Tribyte.Proofs.Machine.Terminal
import Tribyte.Proofs.Memory.Enlarging
import Tribyte.Proofs.Relocation.Simulation
import Tribyte.Proofs.Relocation.Transparency
import Tribyte.Proofs.Assembly.Numbering
import Tribyte.Proofs.Source.Fields
import Tribyte.Proofs.Assembly.Formatting
import Tribyte.Proofs.Source.Literals
import Tribyte.Proofs.Source.Labels
import Tribyte.Proofs.Assembly.SymbolRange
import Tribyte.Proofs.Relocation.Field
import Tribyte.Proofs.Assembly.Division
import Tribyte.Proofs.Source.Escapes
import Tribyte.Proofs.Machine.Effects
import Tribyte.Proofs.Machine.Arithmetic
import Tribyte.Proofs.Text.Numerals
import Tribyte.Proofs.Source.WordLiterals
import Tribyte.Proofs.Programs.Code
import Tribyte.Proofs.Programs.LineEcho
import Tribyte.Proofs.Programs.MessageLoop
import Tribyte.Proofs.Assembly.CodeListing
import Tribyte.Proofs.Assembly.Counting
import Tribyte.Proofs.Assembly.Errors
import Tribyte.Proofs.Assembly.SymbolListing
import Tribyte.Proofs.Memory.Accesses
