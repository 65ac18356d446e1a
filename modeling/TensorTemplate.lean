import TensorTemplate.Backend
import TensorTemplate.Buffer
import TensorTemplate.CommandLine
import TensorTemplate.CommandLine.Options
import TensorTemplate.Declaration
import TensorTemplate.Diagnostics
import TensorTemplate.Directive
import TensorTemplate.Error
import TensorTemplate.Expansion
import TensorTemplate.Expansion.Line
import TensorTemplate.Expansion.Pool
import TensorTemplate.Expansion.Rule
import TensorTemplate.Expansion.Script
import TensorTemplate.Expansion.State
import TensorTemplate.Expansion.Template
import TensorTemplate.Expr
import TensorTemplate.Expr.Order
import TensorTemplate.ExprCache
import TensorTemplate.FileTree
import TensorTemplate.Header
import TensorTemplate.Index
import TensorTemplate.Journal
import TensorTemplate.LambdaCache
import TensorTemplate.Main
import TensorTemplate.Model
import TensorTemplate.NameGen
import TensorTemplate.Path
import TensorTemplate.Printer
import TensorTemplate.Proofs.TaggedLines
import TensorTemplate.Proofs.BufferSides
import TensorTemplate.Proofs.CleanText
import TensorTemplate.Proofs.Expansion.Account
import TensorTemplate.Proofs.Expansion.Balance
import TensorTemplate.Proofs.Expansion.Bookkeeping
import TensorTemplate.Proofs.Expansion.Brackets
import TensorTemplate.Proofs.Expansion.Calls
import TensorTemplate.Proofs.Expansion.Checking
import TensorTemplate.Proofs.Expansion.Chores
import TensorTemplate.Proofs.Expansion.Embedding
import TensorTemplate.Proofs.Expansion.Gate
import TensorTemplate.Proofs.Expansion.Growth
import TensorTemplate.Proofs.Expansion.Layout
import TensorTemplate.Proofs.Expansion.Leftovers
import TensorTemplate.Proofs.Expansion.Mirror
import TensorTemplate.Proofs.Expansion.Moves
import TensorTemplate.Proofs.Expansion.Order
import TensorTemplate.Proofs.Expansion.Ownership
import TensorTemplate.Proofs.Expansion.Page
import TensorTemplate.Proofs.Expansion.Pool
import TensorTemplate.Proofs.Expansion.Routine
import TensorTemplate.Proofs.Expansion.Session
import TensorTemplate.Proofs.Expansion.Simulation
import TensorTemplate.Proofs.Expansion.Step
import TensorTemplate.Proofs.Expansion.Top
import TensorTemplate.Proofs.Expansion.Unrolling
import TensorTemplate.Proofs.ExprCache.Declaring
import TensorTemplate.Proofs.ExprCache.Dependencies
import TensorTemplate.Proofs.ExprCache.History
import TensorTemplate.Proofs.ExprCache.Meaning
import TensorTemplate.Proofs.ExprCache.Parsing
import TensorTemplate.Proofs.ExprCache.Sharing
import TensorTemplate.Proofs.ExprCache.Stability
import TensorTemplate.Proofs.FreshNames
import TensorTemplate.Proofs.Grammar
import TensorTemplate.Proofs.Header
import TensorTemplate.Proofs.LambdaCache
import TensorTemplate.Proofs.NamedParts
import TensorTemplate.Proofs.Names
import TensorTemplate.Proofs.Odometer
import TensorTemplate.Proofs.Operand
import TensorTemplate.Proofs.PlainLine
import TensorTemplate.Proofs.Printing
import TensorTemplate.Proofs.RenderedCall
import TensorTemplate.Proofs.Semantics
import TensorTemplate.Proofs.StringLiteral
import TensorTemplate.Proofs.Temporaries
import TensorTemplate.Proofs.WrittenLine
import TensorTemplate.Registry
import TensorTemplate.Report
import TensorTemplate.Script
import TensorTemplate.Segment
import TensorTemplate.Source
import TensorTemplate.Stack
import TensorTemplate.Table
import TensorTemplate.Temporaries
import TensorTemplate.Text.Blank
import TensorTemplate.Text.Bytes
import TensorTemplate.Text.Hidden
import TensorTemplate.Text.Lines
import TensorTemplate.Text.Quoted
import TensorTemplate.Text.Replace
import TensorTemplate.Version
import TensorTemplate.Proofs.BlankLines
import TensorTemplate.Proofs.Expansion.LiteralText
import TensorTemplate.Proofs.Expansion.Places
import TensorTemplate.Proofs.Expansion.Replacements
import TensorTemplate.Proofs.Imports
import TensorTemplate.Proofs.Expansion.Tame
import TensorTemplate.Proofs.Expansion.Termination
import TensorTemplate.Proofs.Escaping
import TensorTemplate.Proofs.Scanning
