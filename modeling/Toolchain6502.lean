import Toolchain6502.Assembly.Encoding
import Toolchain6502.Assembly.Fault
import Toolchain6502.Assembly.Generator
import Toolchain6502.Assembly.Image
import Toolchain6502.Assembly.Listing
import Toolchain6502.Assembly.Literal
import Toolchain6502.Assembly.Operand
import Toolchain6502.Assembly.Session
import Toolchain6502.Assembly.Statement
import Toolchain6502.Assembly.Symbols
import Toolchain6502.C.Access
import Toolchain6502.C.Allocation
import Toolchain6502.C.Code
import Toolchain6502.C.Emission
import Toolchain6502.C.Emitter
import Toolchain6502.C.Expression
import Toolchain6502.C.Fault
import Toolchain6502.C.Files
import Toolchain6502.C.Line
import Toolchain6502.C.Program
import Toolchain6502.C.Scope
import Toolchain6502.C.Statement
import Toolchain6502.C.Token
import Toolchain6502.Command.Assemble
import Toolchain6502.Command.Build
import Toolchain6502.Command.Compile
import Toolchain6502.Command.Console
import Toolchain6502.Command.Settings
import Toolchain6502.Command.Usage
import Toolchain6502.Cpu.Mnemonic
import Toolchain6502.Cpu.Mode
import Toolchain6502.Cpu.Opcode
import Toolchain6502.Failure
import Toolchain6502.Files.Path
import Toolchain6502.Files.Tree
import Toolchain6502.Location
import Toolchain6502.Machine.Config
import Toolchain6502.Machine.Fault
import Toolchain6502.Machine.Headers
import Toolchain6502.Machine.Memory
import Toolchain6502.Main
import Toolchain6502.NameTable
import Toolchain6502.Number
import Toolchain6502.Number.Binary64
import Toolchain6502.Number.Shortest
import Toolchain6502.Project.Artifacts
import Toolchain6502.Project.Build
import Toolchain6502.Project.Check
import Toolchain6502.Project.Fault
import Toolchain6502.Project.Settings
import Toolchain6502.Project.Sources
import Toolchain6502.Report
import Toolchain6502.Source.Disk
import Toolchain6502.Source.Files
import Toolchain6502.Source.Include
import Toolchain6502.Source.Relocation
import Toolchain6502.Source.Traced
import Toolchain6502.Text.Alphanumeric
import Toolchain6502.Text.Blank
import Toolchain6502.Text.CaseRun
import Toolchain6502.Text.Digit
import Toolchain6502.Text.Lines
import Toolchain6502.Text.LowerCase
import Toolchain6502.Text.Numeral
import Toolchain6502.Text.Printable
import Toolchain6502.Text.Quote
import Toolchain6502.Text.Similar
import Toolchain6502.Text.Split
import Toolchain6502.Text.UpperCase
import Toolchain6502.Text.Utf8
import Toolchain6502.Toml.Document
import Toolchain6502.Toml.Fault
import Toolchain6502.Toml.Moment
import Toolchain6502.Toml.Numeral
import Toolchain6502.Toml.Token
import Toolchain6502.Toml.Value
import Toolchain6502.Proofs.Assembly.OperandForms
import Toolchain6502.Proofs.Assembly.ReferenceLayout
import Toolchain6502.Proofs.Assembly.Acceptance
import Toolchain6502.Proofs.Files.Places
import Toolchain6502.Proofs.Source.IncludeGraph
import Toolchain6502.Proofs.Source.Expansion
import Toolchain6502.Proofs.C.LineRun
import Toolchain6502.Proofs.C.ExpressionValue
import Toolchain6502.Proofs.C.GeneratedLabels
import Toolchain6502.Proofs.C.ExpressionRun
import Toolchain6502.Proofs.C.Flow
import Toolchain6502.Proofs.C.FlowRun
import Toolchain6502.Proofs.C.Reading
import Toolchain6502.Proofs.C.Allocation
import Toolchain6502.Proofs.C.CompiledCode
import Toolchain6502.Proofs.C.Attribution
import Toolchain6502.Proofs.Assembly.WrittenLine
import Toolchain6502.Proofs.Assembly.WrittenOperand
import Toolchain6502.Proofs.C.CodeText
import Toolchain6502.Proofs.C.Scopes
import Toolchain6502.Proofs.C.Names
import Toolchain6502.Proofs.Assembly.LoadedImage
import Toolchain6502.Proofs.Assembly.Decoding
import Toolchain6502.Proofs.Assembly.ByteLines
import Toolchain6502.Proofs.C.ImageRun
import Toolchain6502.Proofs.C.CompiledRun
import Toolchain6502.Proofs.C.CodeLayout
import Toolchain6502.Proofs.C.FlowLabels
import Toolchain6502.Proofs.C.BranchSpans
import Toolchain6502.Proofs.C.Ranges
import Toolchain6502.Proofs.C.CompiledAssembly
import Toolchain6502.Proofs.Project.ByteProvenance
import Toolchain6502.Proofs.Assembly.Sessions
import Toolchain6502.Proofs.Source.MergedUnits
import Toolchain6502.Proofs.Assembly.FaultLines
import Toolchain6502.Proofs.Source.ReportedLine
import Toolchain6502.Proofs.Project.ErrorProvenance
import Toolchain6502.Proofs.Text.Trimming
import Toolchain6502.Proofs.C.Nesting
import Toolchain6502.Proofs.C.Passes
import Toolchain6502.Proofs.C.InitialValues
import Toolchain6502.Proofs.C.PassAgreement
import Toolchain6502.Proofs.C.JumpTargets
import Toolchain6502.Proofs.Assembly.UnvaluedNumerals
import Toolchain6502.Proofs.Source.UnreadableFiles
import Toolchain6502.Proofs.Assembly.EscapingFailures
import Toolchain6502.Proofs.Assembly.WrittenConstant
import Toolchain6502.Proofs.Machine.AssemblyHeader
import Toolchain6502.Proofs.Assembly.SecondDefinitions
import Toolchain6502.Proofs.Source.DecoratedReports
import Toolchain6502.Proofs.C.LineVariables
import Toolchain6502.Proofs.C.LineOrder
import Toolchain6502.Proofs.C.Exhaustion
import Toolchain6502.Proofs.C.ZeroPage
import Toolchain6502.Proofs.Assembly.DefinedNames
import Toolchain6502.Proofs.Project.EditedSource
import Toolchain6502.Proofs.C.DeclarationLines
import Toolchain6502.Proofs.Files.Changes
import Toolchain6502.Proofs.Project.FailedBuild
import Toolchain6502.Proofs.Assembly.AppendedUnit
import Toolchain6502.Proofs.Assembly.MovedOrigin
import Toolchain6502.Proofs.C.ScopeNames
import Toolchain6502.Proofs.C.Accounts
import Toolchain6502.Proofs.C.Gains
import Toolchain6502.Proofs.C.FileOrder
import Toolchain6502.Proofs.C.ExpressionEnd
import Toolchain6502.Proofs.C.ConditionRun
import Toolchain6502.Proofs.C.Tokens
import Toolchain6502.Proofs.C.WrittenAtoms
import Toolchain6502.Proofs.C.Precedence
import Toolchain6502.Proofs.Files.Settled
import Toolchain6502.Proofs.Source.KeptSources
import Toolchain6502.Proofs.Project.Rebuild
import Toolchain6502.Proofs.Assembly.SymbolWords
import Toolchain6502.Proofs.Assembly.SpelledNumbers
import Toolchain6502.Proofs.Assembly.LiteralOperands
import Toolchain6502.Proofs.Assembly.NamedImmediate
import Toolchain6502.Proofs.C.AcceptedTexts
import Toolchain6502.Proofs.C.ConditionSplit
import Toolchain6502.Proofs.Assembly.NumberWidths
import Toolchain6502.Proofs.Machine.HeaderRoundTrip
import Toolchain6502.Proofs.Assembly.CanonicalOperands
import Toolchain6502.Proofs.Source.LineSources
import Toolchain6502.Proofs.Project.CheckedLines
import Toolchain6502.Proofs.Assembly.ImageRows
import Toolchain6502.Proofs.Assembly.PrintedListing
import Toolchain6502.Proofs.Project.SourceQueries
import Toolchain6502.Proofs.C.AddressTexts
import Toolchain6502.Proofs.C.JoinedElse
import Toolchain6502.Proofs.C.LosslessCuts
import Toolchain6502.Proofs.C.IdleOutside
import Toolchain6502.Proofs.C.LoneAccess
import Toolchain6502.Proofs.Files.PathTexts
import Toolchain6502.Proofs.Project.PrintedMap
