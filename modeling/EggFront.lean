import EggFront.Source.Span
import EggFront.Diagnostic
import EggFront.Token
import EggFront.Token.Scan
import EggFront.Text.CharClass
import EggFront.Text.Printable
import EggFront.Text.Quoted
import EggFront.Syntax
import EggFront.Syntax.Reading
import EggFront.Syntax.Parse.Expr
import EggFront.Syntax.Parse
import EggFront.Syntax.Names
import EggFront.Binding.Scope
import EggFront.Binding.Symbol
import EggFront.Binding.Resolve
import EggFront.Text.Lines
import EggFront.Syntax.Print
import EggFront.Diagnostic.Render
import EggFront.Check
import EggFront.Binding.Session
import EggFront.Editor
import EggFront.Text.Word
import EggFront.Highlight
import EggFront.Decimal.Shortest
import EggFront.Decimal.Nearest
import EggFront.Toml.Value
import EggFront.Toml.Error
import EggFront.Toml.Flags
import EggFront.Toml.Table
import EggFront.Toml.Literal
import EggFront.Toml.Read
import EggFront.Config
import EggFront.Text.Similar
import EggFront.Workspace
import EggFront.Cli.Command
import EggFront.Cli.Console
import EggFront.Cli.Run
import EggFront.Main
import EggFront.Proofs.Grammar
import EggFront.Proofs.Erase
import EggFront.Proofs.Parse.Yields
import EggFront.Proofs.Parse.Steps
import EggFront.Proofs.Parse.SoundExpr
import EggFront.Proofs.Parse.SoundStmt
import EggFront.Proofs.Parse.SoundProgram
import EggFront.Proofs.Parse.CompleteExpr
import EggFront.Proofs.Parse.CompleteStmt
import EggFront.Proofs.Parse.CompleteProgram
import EggFront.Proofs.Token.Spells
import EggFront.Proofs.Token.Scanned
import EggFront.Proofs.Print.Indent
import EggFront.Proofs.Print.Terms
import EggFront.Proofs.Print.Blocks
import EggFront.Proofs.Print.RoundTrip
import EggFront.Proofs.Binding.ScopeMaps
import EggFront.Proofs.Binding.Fresh
import EggFront.Proofs.Binding.Runs
import EggFront.Proofs.Binding.Faultless
import EggFront.Proofs.Token.Segments
import EggFront.Proofs.Parse.Names
import EggFront.Proofs.Binding.Visible
import EggFront.Proofs.Binding.Lexical
import EggFront.Proofs.Editor.Notices
import EggFront.Proofs.Parse.Progress
import EggFront.Proofs.Parse.Nesting
import EggFront.Proofs.Parse.Spans
import EggFront.Proofs.Binding.Accesses
import EggFront.Proofs.Binding.Chains
import EggFront.Proofs.Token.Numbers
import EggFront.Proofs.Editor.Hover
import EggFront.Proofs.Diagnostic.Excerpts
import EggFront.Proofs.Parse.Flat
import EggFront.Proofs.Parse.Recovery
import EggFront.Proofs.Highlight.Runs
import EggFront.Proofs.Highlight.Tokens
import EggFront.Proofs.Diagnostic.Order
import EggFront.Proofs.Parse.Errors
import EggFront.Proofs.Binding.Order
