import M6502.Word
import M6502.Text.Blank
import M6502.Text.Hidden
import M6502.Text.Numeral
import M6502.Text.Address
import M6502.Text.Shortest
import M6502.InstructionSet.Mnemonic
import M6502.InstructionSet.AddressingMode
import M6502.InstructionSet.OperandText
import M6502.InstructionSet.Encoding
import M6502.Bus.Basic
import M6502.Bus.Flat
import M6502.Bus.Recorded
import M6502.Bus.Device
import M6502.Bus.Mapped
import M6502.Processor.Status
import M6502.Processor.Registers
import M6502.Processor.Arithmetic
import M6502.Processor.Machine
import M6502.Processor.Action
import M6502.Processor.Step
import M6502.Program.Error
import M6502.Program.Item
import M6502.Program.Basic
import M6502.Program.Call
import M6502.Program.Layout
import M6502.Program.Listing
import M6502.Program.Snippet
import M6502.Source.Literal
import M6502.Source.Line
import M6502.Disassembly
import M6502.Json.Value
import M6502.Json.Cursor
import M6502.Json.Scan
import M6502.Json.Scalar
import M6502.Computer.Settings
import M6502.Computer.SettingsText
import M6502.Computer.Basic
import M6502.Computer.Snapshot
import M6502.Image.Basic
import M6502.Image.Cartridge
import M6502.Image.Listing
import M6502.Command.Host
import M6502.Command.Path
import M6502.Command.Session
import M6502.Command.Manual
import M6502.Command.Grammar
import M6502.Command.Assemble
import M6502.Command.Disassemble
import M6502.Command.Execute
import M6502.Command.Tool
import M6502.Main
import M6502.Proofs.Program.Effect
import M6502.Proofs.Program.Resolution
import M6502.Proofs.Program.Placement
import M6502.Proofs.Program.TwoPass
import M6502.Proofs.InstructionSet.Table
import M6502.Proofs.Program.Stream
import M6502.Proofs.Disassembly.Resync
import M6502.Proofs.InstructionSet.OperandForm
import M6502.Proofs.Text.Hexadecimal
import M6502.Proofs.Source.Reading
import M6502.Proofs.Source.Listing
import M6502.Proofs.Program.Unlabelled
import M6502.Proofs.Source.Described
import M6502.Proofs.Source.RoundTrip
import M6502.Proofs.Image.Loaded
import M6502.Proofs.Image.Tiling
import M6502.Proofs.Bus.Cells
import M6502.Proofs.Bus.Mapped
import M6502.Proofs.Bus.Aliasing
import M6502.Proofs.Processor.Outcome
import M6502.Proofs.Processor.Displacement
import M6502.Proofs.Processor.Agreement
import M6502.Proofs.Bus.Loading
import M6502.Proofs.Program.Labels
import M6502.Proofs.Program.Rebasing
import M6502.Proofs.Program.Relocation
import M6502.Proofs.Program.Failure
import M6502.Proofs.Program.Landing
import M6502.Proofs.Program.Operands
import M6502.Proofs.Processor.Runs
import M6502.Proofs.Snippet.Copy
import M6502.Proofs.Snippet.Site
import M6502.Proofs.Snippet.Divide
import M6502.Proofs.Processor.Lockstep
import M6502.Proofs.Bus.Interchange
import M6502.Proofs.Computer.Running
import M6502.Proofs.Processor.StraightLine
import M6502.Proofs.Wide.Number
import M6502.Proofs.Wide.Sum
import M6502.Proofs.Processor.Nesting
import M6502.Proofs.Processor.Writes
import M6502.Proofs.Processor.Footprint
import M6502.Proofs.Computer.Trapping
import M6502.Proofs.Computer.Halting
import M6502.Proofs.Bus.Wiring
import M6502.Proofs.Computer.Interrupt
import M6502.Proofs.Computer.History
import M6502.Proofs.Computer.PowerCycle
import M6502.Proofs.Computer.ReadOnlyCode
import M6502.Proofs.Computer.Mapping
import M6502.Proofs.Image.Mounted
import M6502.Proofs.Computer.Profile
import M6502.Proofs.Processor.Requests
import M6502.Proofs.Bus.Observed
import M6502.Proofs.Bus.Bytewise
import M6502.Proofs.Bus.Effect
import M6502.Proofs.Disassembly.Partition
import M6502.Proofs.Image.Range
import M6502.Proofs.Wide.Shift
import M6502.Proofs.Text.Positional
import M6502.Proofs.Source.Meaning
import M6502.Proofs.Text.Folding
import M6502.Proofs.Source.Layout
import M6502.Proofs.Program.InPlace
import M6502.Proofs.Program.Growth
import M6502.Proofs.Program.ZeroPage
import M6502.Proofs.Snippet.Pieces
import M6502.Proofs.Snippet.Expansion
