import ExprCompiler.Command.Line
import ExprCompiler.Command.Options
import ExprCompiler.Command.Program
import ExprCompiler.Command.TokenReport
import ExprCompiler.Expression.Checking
import ExprCompiler.Expression.Parser
import ExprCompiler.Expression.Precedence
import ExprCompiler.Expression.Reduction
import ExprCompiler.Expression.Stack
import ExprCompiler.Expression.Type
import ExprCompiler.Lexical.Automaton
import ExprCompiler.Lexical.Byte
import ExprCompiler.Lexical.ByteReader
import ExprCompiler.Lexical.Fault
import ExprCompiler.Lexical.Lookahead
import ExprCompiler.Lexical.Pending
import ExprCompiler.Lexical.Scanner
import ExprCompiler.Lexical.State
import ExprCompiler.Lexical.TokenSource
import ExprCompiler.Main
import ExprCompiler.Names.Access
import ExprCompiler.Names.Builtin
import ExprCompiler.Names.Capacity
import ExprCompiler.Names.Scope
import ExprCompiler.Names.Symbol
import ExprCompiler.Names.Table
import ExprCompiler.Number.Decimal
import ExprCompiler.Number.Double
import ExprCompiler.Number.Hexadecimal
import ExprCompiler.Number.Integer
import ExprCompiler.Number.Shortest
import ExprCompiler.Report.Code
import ExprCompiler.Report.Diagnostic
import ExprCompiler.Report.Queue
import ExprCompiler.Report.Terminal
import ExprCompiler.Source.Listing
import ExprCompiler.Source.Location
import ExprCompiler.Source.Token
import ExprCompiler.Target.Assembly
import ExprCompiler.Target.Code
import ExprCompiler.Target.Instruction
import ExprCompiler.Text.Buffer
import ExprCompiler.Text.Quoted
import ExprCompiler.Text.Unprintable
import ExprCompiler.Text.Utf8
import ExprCompiler.Proofs.Command.CompiledLines
import ExprCompiler.Proofs.Command.ErrorReports
import ExprCompiler.Proofs.Command.LineIndependence
import ExprCompiler.Proofs.Command.MovedLines
import ExprCompiler.Proofs.Command.ProgramShape
import ExprCompiler.Proofs.Command.ReportFilters
import ExprCompiler.Proofs.Command.ScanReports
import ExprCompiler.Proofs.Expression.Binding
import ExprCompiler.Proofs.Expression.Checks
import ExprCompiler.Proofs.Expression.CodeSafety
import ExprCompiler.Proofs.Expression.Completeness
import ExprCompiler.Proofs.Expression.ErrorEvents
import ExprCompiler.Proofs.Expression.ErrorPlaces
import ExprCompiler.Proofs.Expression.Errors
import ExprCompiler.Proofs.Expression.Grammar
import ExprCompiler.Proofs.Expression.Grouping
import ExprCompiler.Proofs.Expression.PartialTrees
import ExprCompiler.Proofs.Expression.ReductionSafety
import ExprCompiler.Proofs.Expression.RuleSafety
import ExprCompiler.Proofs.Expression.Runs
import ExprCompiler.Proofs.Expression.Soundness
import ExprCompiler.Proofs.Expression.StackOrder
import ExprCompiler.Proofs.Expression.StackShape
import ExprCompiler.Proofs.Expression.StackTurns
import ExprCompiler.Proofs.Expression.Terminator
import ExprCompiler.Proofs.Expression.TokenPlaces
import ExprCompiler.Proofs.Expression.Typing
import ExprCompiler.Proofs.Lexical.Comments
import ExprCompiler.Proofs.Lexical.Lexemes
import ExprCompiler.Proofs.Lexical.LineBreaks
import ExprCompiler.Proofs.Lexical.LongerInput
import ExprCompiler.Proofs.Lexical.NestedComments
import ExprCompiler.Proofs.Lexical.Positions
import ExprCompiler.Proofs.Lexical.Printing
import ExprCompiler.Proofs.Lexical.Pushback
import ExprCompiler.Proofs.Lexical.ReadAhead
import ExprCompiler.Proofs.Lexical.Resumption
import ExprCompiler.Proofs.Lexical.SpelledTokens
import ExprCompiler.Proofs.Lexical.Spelling
import ExprCompiler.Proofs.Lexical.StringItems
import ExprCompiler.Proofs.Lexical.StringLiterals
import ExprCompiler.Proofs.Lexical.TextValidity
import ExprCompiler.Proofs.Lexical.TokenStream
import ExprCompiler.Proofs.Names.ListedSymbols
import ExprCompiler.Proofs.Names.NestedBlocks
import ExprCompiler.Proofs.Names.Numbering
import ExprCompiler.Proofs.Names.ParameterOrder
import ExprCompiler.Proofs.Names.PrimeSizes
import ExprCompiler.Proofs.Names.ProbeChains
import ExprCompiler.Proofs.Names.ProbeCoverage
import ExprCompiler.Proofs.Names.Probing
import ExprCompiler.Proofs.Names.Refinement
import ExprCompiler.Proofs.Names.ScopeRefinement
import ExprCompiler.Proofs.Names.SlotContents
import ExprCompiler.Proofs.Names.TableInvariant
import ExprCompiler.Proofs.Names.TargetNames
import ExprCompiler.Proofs.Names.TypedAccess
import ExprCompiler.Proofs.Names.WordSizes
import ExprCompiler.Proofs.Number.HexExactness
import ExprCompiler.Proofs.Number.HexNumeral
import ExprCompiler.Proofs.Number.Numeral
import ExprCompiler.Proofs.Number.RatioOrder
import ExprCompiler.Proofs.Number.RatioRounding
import ExprCompiler.Proofs.Report.ErrorLimit
import ExprCompiler.Proofs.Report.QueueHistory
import ExprCompiler.Proofs.Report.QueueInvariant
import ExprCompiler.Proofs.Target.AssemblyReader
import ExprCompiler.Proofs.Target.InstructionDecoder
import ExprCompiler.Proofs.Target.Interpreter
import ExprCompiler.Proofs.Target.Machine
import ExprCompiler.Proofs.Target.RenderedCode
import ExprCompiler.Proofs.Target.Simulation
import ExprCompiler.Proofs.Target.TextShape
import ExprCompiler.Proofs.Text.BufferGrowth
import ExprCompiler.Proofs.Text.Utf8Roundtrip
import ExprCompiler.Proofs.Text.Utf8Slices
