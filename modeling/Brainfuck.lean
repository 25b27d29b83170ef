import Brainfuck.Bracket.JumpTable
import Brainfuck.Bracket.Scan
import Brainfuck.Bracket.Strategy
import Brainfuck.CodeFrame
import Brainfuck.CommandLine.Arguments
import Brainfuck.CommandLine.Run
import Brainfuck.Console
import Brainfuck.Descriptor.OpenFile
import Brainfuck.Descriptor.Reader
import Brainfuck.Descriptor.SystemError
import Brainfuck.Descriptor.Writer
import Brainfuck.Execution
import Brainfuck.Fault
import Brainfuck.FileSystem
import Brainfuck.InMemory
import Brainfuck.Instruction
import Brainfuck.Loading
import Brainfuck.Location
import Brainfuck.Machine
import Brainfuck.Main
import Brainfuck.Number.Binary64
import Brainfuck.Number.Numeral
import Brainfuck.Number.Ratio
import Brainfuck.Number.Shortest
import Brainfuck.Options
import Brainfuck.Program
import Brainfuck.Proofs.JumpTable
import Brainfuck.Proofs.StrategyAgreement
import Brainfuck.Stream.Basic
import Brainfuck.Stream.Buffer
import Brainfuck.Stream.Script
import Brainfuck.Stream.Trace
import Brainfuck.Tape
import Brainfuck.Text.Blank
import Brainfuck.Text.Quoted
import Brainfuck.Text.Utf8
import Brainfuck.Proofs.Runs
import Brainfuck.Proofs.Nesting
import Brainfuck.Proofs.Reachability
import Brainfuck.Proofs.EventGrammar
import Brainfuck.Proofs.Layout
import Brainfuck.Proofs.Structured
import Brainfuck.Proofs.Simulation
import Brainfuck.Proofs.Lockstep
import Brainfuck.Proofs.TapeLength
import Brainfuck.Proofs.CellWidths
import Brainfuck.Proofs.Interruption
import Brainfuck.Proofs.InertOctets
import Brainfuck.Proofs.Composition
import Brainfuck.Proofs.Noninterference
import Brainfuck.Proofs.Decoding
import Brainfuck.Proofs.Encoding
import Brainfuck.Proofs.Descriptors
import Brainfuck.Proofs.Process
import Brainfuck.Proofs.Sessions
import Brainfuck.Proofs.ArgumentGrammar
import Brainfuck.Proofs.WholeNumbers
import Brainfuck.Proofs.CommandSettings
import Brainfuck.Proofs.ExitCodes
import Brainfuck.Proofs.BracketPairs
import Brainfuck.Proofs.ProgramFiles
import Brainfuck.Proofs.CountingLoops
import Brainfuck.Proofs.Stuttering
import Brainfuck.Proofs.ArithmeticBlocks
import Brainfuck.Proofs.IntegerTape
import Brainfuck.Proofs.WriterHistory
import Brainfuck.Proofs.WriterBounds
import Brainfuck.Proofs.ReaderHistory
import Brainfuck.Proofs.Lines
import Brainfuck.Proofs.CodeFrames
import Brainfuck.Proofs.Carets
import Brainfuck.Proofs.Locations
import Brainfuck.Proofs.JoinedValues
import Brainfuck.Proofs.Rounding
import Brainfuck.Proofs.Literals
import Brainfuck.Proofs.WrittenTapeLengths
import Brainfuck.Proofs.CopyProgram
import Brainfuck.Proofs.BackwardJumps
import Brainfuck.Proofs.ShortWrites
import Brainfuck.Proofs.ErrorLogs
import Brainfuck.Proofs.Chunks
