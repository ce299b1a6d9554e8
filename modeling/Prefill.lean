import Prefill.Argument
import Prefill.Cli.Action
import Prefill.Cli.Arguments
import Prefill.Cli.Command
import Prefill.Config.Basic
import Prefill.Config.Load
import Prefill.Config.Reader
import Prefill.Config.Template
import Prefill.Discovery
import Prefill.Evaluation
import Prefill.Execution
import Prefill.Fill
import Prefill.Glob
import Prefill.Go.Closure
import Prefill.Go.Declaration
import Prefill.Go.Grammar.Basic
import Prefill.Go.Grammar.Expression
import Prefill.Go.Grammar.File
import Prefill.Go.Grammar.Statement
import Prefill.Go.Grammar.Type
import Prefill.Go.Import
import Prefill.Go.ImportTable
import Prefill.Go.Lexeme
import Prefill.Go.Number
import Prefill.Go.Position
import Prefill.Go.Signature
import Prefill.Go.Source
import Prefill.Go.Syntax
import Prefill.Go.Uses
import Prefill.Helper.File
import Prefill.Helper.Index
import Prefill.Helper.Symbol
import Prefill.Injection
import Prefill.Literal.Kind
import Prefill.Literal.Quote
import Prefill.Main
import Prefill.Marker
import Prefill.Patch
import Prefill.Path
import Prefill.Program
import Prefill.Project
import Prefill.Proofs.Accounting
import Prefill.Proofs.Answering
import Prefill.Proofs.Balancing
import Prefill.Proofs.Belonging
import Prefill.Proofs.Boundaries
import Prefill.Proofs.Callee
import Prefill.Proofs.Calling
import Prefill.Proofs.Carrying
import Prefill.Proofs.Colons
import Prefill.Proofs.Comments
import Prefill.Proofs.Constants
import Prefill.Proofs.Cuts
import Prefill.Proofs.Decoding
import Prefill.Proofs.Emission
import Prefill.Proofs.Encoding
import Prefill.Proofs.Enumeration
import Prefill.Proofs.Executing
import Prefill.Proofs.Exploring
import Prefill.Proofs.Filing
import Prefill.Proofs.Fronts
import Prefill.Proofs.Gating
import Prefill.Proofs.Heads
import Prefill.Proofs.ImportLines
import Prefill.Proofs.Indexing
import Prefill.Proofs.Inferring
import Prefill.Proofs.Isolation
import Prefill.Proofs.Keeping
import Prefill.Proofs.LineBreaks
import Prefill.Proofs.Lines
import Prefill.Proofs.Links
import Prefill.Proofs.Literals
import Prefill.Proofs.Loading
import Prefill.Proofs.Lookups
import Prefill.Proofs.Memo
import Prefill.Proofs.MemoKey
import Prefill.Proofs.Moving
import Prefill.Proofs.MovingGrammar
import Prefill.Proofs.Naming
import Prefill.Proofs.Nesting
import Prefill.Proofs.NormalForm
import Prefill.Proofs.Opening
import Prefill.Proofs.Order
import Prefill.Proofs.Packages
import Prefill.Proofs.Parentheses
import Prefill.Proofs.Patching
import Prefill.Proofs.Placing
import Prefill.Proofs.Preamble
import Prefill.Proofs.Probing
import Prefill.Proofs.ProgramImports
import Prefill.Proofs.Quoting
import Prefill.Proofs.Reaching
import Prefill.Proofs.Refill
import Prefill.Proofs.Reflow
import Prefill.Proofs.Refusal
import Prefill.Proofs.Reinjection
import Prefill.Proofs.Remarks
import Prefill.Proofs.Repatching
import Prefill.Proofs.Replacing
import Prefill.Proofs.Restoring
import Prefill.Proofs.Results
import Prefill.Proofs.Retrying
import Prefill.Proofs.Scanning
import Prefill.Proofs.Shadowing
import Prefill.Proofs.Sides
import Prefill.Proofs.Skipping
import Prefill.Proofs.Slips
import Prefill.Proofs.Splicing
import Prefill.Proofs.Steady
import Prefill.Proofs.StringValue
import Prefill.Proofs.Stripping
import Prefill.Proofs.Targets
import Prefill.Proofs.Tidying
import Prefill.Proofs.Tiling
import Prefill.Proofs.Trees
import Prefill.Proofs.Visibility
import Prefill.Proofs.Walk
import Prefill.Proofs.Weaving
import Prefill.Proofs.Words
import Prefill.Proofs.Writing
import Prefill.Region
import Prefill.Report.Basic
import Prefill.Report.Diagnostic
import Prefill.Report.Journal
import Prefill.Report.JsonValue
import Prefill.Run
import Prefill.Sorting
import Prefill.Target
import Prefill.Text.Basic
import Prefill.Text.Capital
import Prefill.Text.Letter
import Prefill.Text.Line
import Prefill.Text.Printable
import Prefill.Text.Quoted
import Prefill.Text.Utf8
import Prefill.Text.Word
import Prefill.Token
import Prefill.Toolchain.Basic
import Prefill.Toolchain.GoTool
import Prefill.Toolchain.Listing
import Prefill.Toolchain.Noise
import Prefill.Tree
import Prefill.Yaml.Basic
import Prefill.Yaml.Reader
import Prefill.Yaml.Scalar
