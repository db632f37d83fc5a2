import Splice.Arguments
import Splice.Collaborator.Backend
import Splice.Collaborator.Completion
import Splice.Collaborator.Fence
import Splice.Collaborator.Prompt
import Splice.Collaborator.Script
import Splice.Command
import Splice.Compile
import Splice.Decimal.Reader
import Splice.Decimal.Shortest
import Splice.Decimal.Text
import Splice.Emit.Cpp
import Splice.Emit.Fault
import Splice.Emit.Target
import Splice.Emit.Wat
import Splice.Main
import Splice.Proofs.Collaborator.Fence
import Splice.Proofs.Collaborator.Script
import Splice.Proofs.Compile.BlankLines
import Splice.Proofs.Compile.Concatenation
import Splice.Proofs.Compile.FencedCode
import Splice.Proofs.Compile.Formatting
import Splice.Proofs.Compile.Height
import Splice.Proofs.Compile.Indentation
import Splice.Proofs.Compile.Kept
import Splice.Proofs.Compile.Leaves
import Splice.Proofs.Compile.LineBreaks
import Splice.Proofs.Compile.Numerals
import Splice.Proofs.Compile.Positions
import Splice.Proofs.Compile.SingleExpr
import Splice.Proofs.Decimal.Binary
import Splice.Proofs.Decimal.Integers
import Splice.Proofs.Decimal.Whole
import Splice.Proofs.Emit.Accepted
import Splice.Proofs.Emit.Correct
import Splice.Proofs.Emit.Cpp.Escapes
import Splice.Proofs.Emit.Cpp.Grammar
import Splice.Proofs.Emit.Cpp.Lexemes
import Splice.Proofs.Emit.Cpp.Structure
import Splice.Proofs.Emit.Fragment
import Splice.Proofs.Emit.Identifiers
import Splice.Proofs.Emit.Listing
import Splice.Proofs.Emit.Lowering
import Splice.Proofs.Emit.Machine
import Splice.Proofs.Emit.Reads
import Splice.Proofs.Emit.Refusals
import Splice.Proofs.Emit.Related
import Splice.Proofs.Emit.Validation
import Splice.Proofs.Repl.Dialogue
import Splice.Proofs.Repl.Pieces
import Splice.Proofs.Report.Excerpts
import Splice.Proofs.Session.Alike
import Splice.Proofs.Session.CallDepth
import Splice.Proofs.Session.Chunking
import Splice.Proofs.Session.Coupled
import Splice.Proofs.Session.DeclarationOrder
import Splice.Proofs.Session.Exchanges
import Splice.Proofs.Session.FrameDiscipline
import Splice.Proofs.Session.Isolation
import Splice.Proofs.Session.Journals
import Splice.Proofs.Session.Optimize
import Splice.Proofs.Session.Preserved
import Splice.Proofs.Session.Printed
import Splice.Proofs.Session.SentBlocks
import Splice.Proofs.Session.Splices
import Splice.Proofs.Session.Task
import Splice.Proofs.Session.Termination
import Splice.Proofs.Session.Unreserved
import Splice.Proofs.Session.Visits
import Splice.Proofs.Session.Widgets
import Splice.Proofs.Text.Indented
import Splice.Proofs.Text.Pieces
import Splice.Proofs.Text.Rows
import Splice.Proofs.Token.BlankTest
import Splice.Proofs.Token.Blocks
import Splice.Proofs.Token.Exact
import Splice.Proofs.Token.Joined
import Splice.Proofs.Token.Limit
import Splice.Proofs.Token.LongestMatch
import Splice.Proofs.Token.Places
import Splice.Proofs.Token.Shape
import Splice.Proofs.Token.Unplaced
import Splice.Proofs.Token.WidthStack
import Splice.Proofs.Token.Words
import Splice.Proofs.Tree.BlockLines
import Splice.Proofs.Tree.Built
import Splice.Proofs.Tree.Depth
import Splice.Proofs.Tree.Discipline
import Splice.Proofs.Tree.Faults
import Splice.Proofs.Tree.Fuel
import Splice.Proofs.Tree.Image
import Splice.Proofs.Tree.Legible
import Splice.Proofs.Tree.Logic
import Splice.Proofs.Tree.Marks
import Splice.Proofs.Tree.Moves
import Splice.Proofs.Tree.Parts
import Splice.Proofs.Tree.Progress
import Splice.Proofs.Tree.Reading.Expr
import Splice.Proofs.Tree.Reading.Stmt
import Splice.Proofs.Tree.RoundTrip
import Splice.Proofs.Tree.Routine
import Splice.Proofs.Tree.Script
import Splice.Proofs.Tree.Senses
import Splice.Proofs.Tree.Simulation
import Splice.Proofs.Tree.Spelling
import Splice.Proofs.Tree.Twins
import Splice.Proofs.Tree.Written
import Splice.Proofs.Tree.Yields
import Splice.Repl
import Splice.Report
import Splice.Session.Basic
import Splice.Session.Run
import Splice.Table
import Splice.Text.Blank
import Splice.Text.Lines
import Splice.Text.Place
import Splice.Text.Quoted
import Splice.Text.Shown
import Splice.Text.Slice
import Splice.Text.Spaces
import Splice.Token.Basic
import Splice.Token.Kind
import Splice.Token.Layout
import Splice.Token.Line
import Splice.Token.Listing
import Splice.Token.Stream
import Splice.Tree.Basic
import Splice.Tree.Cursor
import Splice.Tree.Fault
import Splice.Tree.Parser
import Splice.Tree.Printer
import Splice.Value.Basic
import Splice.Value.Frames
