import Lox.CommandLine.Basic
import Lox.CommandLine.FileName
import Lox.Decimal.Display
import Lox.Decimal.Layout
import Lox.Decimal.Shortest
import Lox.Diagnostic
import Lox.Frames
import Lox.Grammar.Precedence
import Lox.Grammar.Program
import Lox.Grammar.Rule
import Lox.Grammar.SyntaxError
import Lox.Machine.Basic
import Lox.Machine.Evaluation
import Lox.Machine.Operator
import Lox.Machine.RuntimeError
import Lox.Main
import Lox.Proofs.Bytes.Encoding
import Lox.Proofs.Bytes.Lexemes
import Lox.Proofs.Bytes.Pieces
import Lox.Proofs.Bytes.Safety
import Lox.Proofs.Bytes.Scanner
import Lox.Proofs.Bytes.Steps
import Lox.Proofs.Control.Agreement
import Lox.Proofs.Control.Confined
import Lox.Proofs.Control.Strict
import Lox.Proofs.Cursor.Agreement
import Lox.Proofs.Cursor.Follows
import Lox.Proofs.Cursor.Program
import Lox.Proofs.Cursor.Progress
import Lox.Proofs.Cursor.Rule
import Lox.Proofs.Cursor.Tracking
import Lox.Proofs.Decimal.Display
import Lox.Proofs.Decimal.Double
import Lox.Proofs.Decimal.Nearest
import Lox.Proofs.Decimal.Numeral
import Lox.Proofs.Decimal.Shortest
import Lox.Proofs.Frames.Growth
import Lox.Proofs.Frames.Operation
import Lox.Proofs.Grammar.Building
import Lox.Proofs.Grammar.Clause
import Lox.Proofs.Grammar.Completeness
import Lox.Proofs.Grammar.Concatenation
import Lox.Proofs.Grammar.Derivation
import Lox.Proofs.Grammar.ErrorOrder
import Lox.Proofs.Grammar.Exactness
import Lox.Proofs.Grammar.Extension
import Lox.Proofs.Grammar.Finding
import Lox.Proofs.Grammar.Logic
import Lox.Proofs.Grammar.Progress
import Lox.Proofs.Grammar.Shape
import Lox.Proofs.Grammar.Soundness
import Lox.Proofs.History.Assignment
import Lox.Proofs.History.Evaluation
import Lox.Proofs.History.Execution
import Lox.Proofs.History.Invariant
import Lox.Proofs.History.Knowledge
import Lox.Proofs.History.Method
import Lox.Proofs.History.Resolution
import Lox.Proofs.History.Steps
import Lox.Proofs.Journal.Agreement
import Lox.Proofs.Journal.Code
import Lox.Proofs.Journal.Declarations
import Lox.Proofs.Journal.Evaluation
import Lox.Proofs.Journal.Knowledge
import Lox.Proofs.Journal.Steps
import Lox.Proofs.Journal.Variables
import Lox.Proofs.Lexical.Agreement
import Lox.Proofs.Lexical.Declarations
import Lox.Proofs.Lexical.Evaluation
import Lox.Proofs.Lexical.Flow
import Lox.Proofs.Lexical.Fuel
import Lox.Proofs.Lexical.Growth
import Lox.Proofs.Lexical.Machine
import Lox.Proofs.Lexical.Match
import Lox.Proofs.Lexical.Moment
import Lox.Proofs.Lexical.Operations
import Lox.Proofs.Lexical.Places
import Lox.Proofs.Lexical.Related
import Lox.Proofs.Lexical.Simulation
import Lox.Proofs.Lexical.Variables
import Lox.Proofs.Loop.Closures
import Lox.Proofs.Loop.Context
import Lox.Proofs.Loop.Desugaring
import Lox.Proofs.Loop.Rules
import Lox.Proofs.Machine.Agreement
import Lox.Proofs.Machine.Current
import Lox.Proofs.Machine.Fit
import Lox.Proofs.Machine.Layout
import Lox.Proofs.Machine.Operations
import Lox.Proofs.Machine.Steps
import Lox.Proofs.Machine.Values
import Lox.Proofs.Machine.Variables
import Lox.Proofs.Machine.Watch
import Lox.Proofs.Moves.Evaluation
import Lox.Proofs.Moves.Execution
import Lox.Proofs.Moves.Growth
import Lox.Proofs.Printing.Form
import Lox.Proofs.Printing.Injectivity
import Lox.Proofs.Printing.Reading
import Lox.Proofs.Printing.Tree
import Lox.Proofs.Printing.Word
import Lox.Proofs.Reach.Call
import Lox.Proofs.Reach.Evaluation
import Lox.Proofs.Reach.Region
import Lox.Proofs.Reach.Steps
import Lox.Proofs.Receiver.Agreement
import Lox.Proofs.Receiver.Declarations
import Lox.Proofs.Receiver.Functions
import Lox.Proofs.Receiver.Knowledge
import Lox.Proofs.Receiver.Ledger
import Lox.Proofs.Receiver.Methods
import Lox.Proofs.Receiver.Steps
import Lox.Proofs.Renaming.Bound
import Lox.Proofs.Renaming.Evaluation
import Lox.Proofs.Renaming.Grammar
import Lox.Proofs.Renaming.Machine
import Lox.Proofs.Renaming.Operator
import Lox.Proofs.Renaming.Reading
import Lox.Proofs.Renaming.Rule
import Lox.Proofs.Renaming.Scope
import Lox.Proofs.Renaming.Session
import Lox.Proofs.Renaming.Steps
import Lox.Proofs.Renaming.Tree
import Lox.Proofs.Renaming.Value
import Lox.Proofs.Scope.Address
import Lox.Proofs.Scope.Balance
import Lox.Proofs.Scope.Check
import Lox.Proofs.Scope.Entries
import Lox.Proofs.Scope.Enumeration
import Lox.Proofs.Scope.Opening
import Lox.Proofs.Scope.Register
import Lox.Proofs.Scope.Resolution
import Lox.Proofs.Scope.Rules
import Lox.Proofs.Scope.Table
import Lox.Proofs.Scope.Visit
import Lox.Proofs.Session.Bound
import Lox.Proofs.Session.Chronicle
import Lox.Proofs.Session.Composition
import Lox.Proofs.Session.Construction
import Lox.Proofs.Session.Control
import Lox.Proofs.Session.Current
import Lox.Proofs.Session.Declaration
import Lox.Proofs.Session.Frames
import Lox.Proofs.Session.Identity
import Lox.Proofs.Session.Initialisation
import Lox.Proofs.Session.Journal
import Lox.Proofs.Session.Line
import Lox.Proofs.Session.Property
import Lox.Proofs.Session.Receiver
import Lox.Proofs.Session.Record
import Lox.Proofs.Session.Rejection
import Lox.Proofs.Session.Scoping
import Lox.Proofs.Session.Spelling
import Lox.Proofs.Source.Delimited
import Lox.Proofs.Source.Joining
import Lox.Proofs.Source.Lexeme
import Lox.Proofs.Source.LineNumber
import Lox.Proofs.Source.Name
import Lox.Proofs.Source.Nesting
import Lox.Proofs.Source.Replacing
import Lox.Proofs.Source.Spacing
import Lox.Proofs.Source.Tiling
import Lox.Proofs.Source.Uniqueness
import Lox.Proofs.Spelling.Evaluation
import Lox.Proofs.Spelling.Grammar
import Lox.Proofs.Spelling.Local
import Lox.Proofs.Spelling.Reading
import Lox.Proofs.Spelling.Rules
import Lox.Proofs.Spelling.Scope
import Lox.Proofs.Spelling.Steps
import Lox.Proofs.Spelling.Tree
import Lox.Proofs.Spelling.Value
import Lox.Proofs.Tree.Identity
import Lox.Proofs.Tree.Made
import Lox.Proofs.Tree.Occurrence
import Lox.Proofs.Tree.Site
import Lox.Reading
import Lox.Scope.Basic
import Lox.Scope.BindingError
import Lox.Scope.Walk
import Lox.Session
import Lox.Source.Item
import Lox.Source.Piece
import Lox.Text.CharSet.Basic
import Lox.Text.CharSet.GraphemeExtend
import Lox.Text.CharSet.Other
import Lox.Text.Unprintable
import Lox.Token.Basic
import Lox.Token.Listing
import Lox.Tree.Basic
import Lox.Tree.Printer
import Lox.Value
