import TagMachine.Assembly
import TagMachine.Assembly.Item
import TagMachine.Assembly.Statement
import TagMachine.Cbor.Item
import TagMachine.CommandLine
import TagMachine.CommandLine.Flag
import TagMachine.Debugger
import TagMachine.Display.Listing
import TagMachine.Display.Paint
import TagMachine.Display.Trace
import TagMachine.FileTree
import TagMachine.Journal
import TagMachine.Machine.Basic
import TagMachine.Machine.Frame
import TagMachine.Machine.Handler
import TagMachine.Machine.Run
import TagMachine.Machine.Step
import TagMachine.Machine.Trap
import TagMachine.Main
import TagMachine.Number.Binary32
import TagMachine.Number.Decimal
import TagMachine.Number.Numeral
import TagMachine.Number.Shortest
import TagMachine.Opcode
import TagMachine.Program.Image
import TagMachine.Program.Load
import TagMachine.Program.Text
import TagMachine.Proofs.InstructionParts
import TagMachine.Session
import TagMachine.Settings
import TagMachine.Text.Bytes
import TagMachine.Text.CodeRange
import TagMachine.Text.Letter
import TagMachine.Text.Lowercase
import TagMachine.Text.Printable
import TagMachine.Text.Quoted
import TagMachine.Text.Space
import TagMachine.Text.Utf8
import TagMachine.Token
import TagMachine.Token.Lexer
import TagMachine.Toml.Document
import TagMachine.Toml.Scalar
import TagMachine.Toml.Syntax
import TagMachine.Value
import TagMachine.Value.Argument
import TagMachine.Value.Arithmetic
import TagMachine.Proofs.InstructionRules
import TagMachine.Proofs.TrapRules
import TagMachine.Proofs.StepRules
import TagMachine.Proofs.Reachable
import TagMachine.Proofs.HandlerChain
import TagMachine.Proofs.StackBounds
import TagMachine.Proofs.CheckedAccess
import TagMachine.Proofs.FaultedSteps
import TagMachine.Proofs.Footprint
import TagMachine.Proofs.BlockMoves
import TagMachine.Proofs.CallFrame
import TagMachine.Proofs.LiveRecords
import TagMachine.Proofs.Lexemes
import TagMachine.Proofs.SourceStatements
import TagMachine.Proofs.Layout
import TagMachine.Proofs.NestedHandlers
import TagMachine.Proofs.CborItems
import TagMachine.Proofs.CborReading
import TagMachine.Proofs.ImageBytes
import TagMachine.Proofs.ImageRoundTrip
import TagMachine.Proofs.StoredPrograms
import TagMachine.Proofs.NumericSources
import TagMachine.Proofs.TokenTiling
import TagMachine.Proofs.Lockstep
import TagMachine.Proofs.Runs
import TagMachine.Proofs.FlatSlots
import TagMachine.Proofs.ResidualSlots
import TagMachine.Proofs.LargerStack
import TagMachine.Proofs.StepLimit
import TagMachine.Proofs.ProgramText
import TagMachine.Proofs.TracedRuns
import TagMachine.Proofs.DebuggedRuns
import TagMachine.Proofs.SourceParts
import TagMachine.Proofs.Sweep
import TagMachine.Proofs.InstructionBoundaries
import TagMachine.Proofs.SignedMagnitude
import TagMachine.Proofs.NearestFloat
import TagMachine.Proofs.CorrectRounding
import TagMachine.Proofs.FloatArithmetic
import TagMachine.Proofs.DecimalText
import TagMachine.Proofs.WrittenDecimals
import TagMachine.Proofs.FloatText
import TagMachine.Proofs.SpacedLexemes
import TagMachine.Proofs.InsertedGaps
import TagMachine.Proofs.Reassembly
import TagMachine.Proofs.JoinedSources
import TagMachine.Proofs.QuotedText
import TagMachine.Proofs.CharacterLiterals
import TagMachine.Proofs.FailedInstalls
import TagMachine.Proofs.HandlerSearch
import TagMachine.Proofs.TailCalls
import TagMachine.Proofs.DecimalFractions
import TagMachine.Proofs.LoadedArguments
import TagMachine.Proofs.TokenLanguages
import TagMachine.Proofs.LabelProblems
import TagMachine.Proofs.AssembledSources
import TagMachine.Proofs.FloatRoundTrip
import TagMachine.Proofs.ExactArithmetic
import TagMachine.Proofs.ValueEquality
