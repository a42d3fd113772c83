import RegexNfa.Main
import RegexNfa.Expression.Grammar
import RegexNfa.Expression.Layout
import RegexNfa.Arena.Grown
import RegexNfa.Arena.Relocation
import RegexNfa.Automaton.Rounds
import RegexNfa.Path
import RegexNfa.Path.Distance
import RegexNfa.Token.Brackets
import RegexNfa.Token.PostfixWord
import RegexNfa.Token.Sides
import RegexNfa.Token.Lexeme
import RegexNfa.CommandLine.Item
import RegexNfa.Proofs.FirstSeen
import RegexNfa.Proofs.Automaton.Search
import RegexNfa.Proofs.Automaton.Reachable
import RegexNfa.Proofs.Automaton.BreadthFirst
import RegexNfa.Proofs.Automaton.Graph
import RegexNfa.Proofs.Automaton.Readout
import RegexNfa.Proofs.Automaton.MergedGraph
import RegexNfa.Proofs.Automaton.Summary
import RegexNfa.Proofs.Run.Configurations
import RegexNfa.Proofs.Automaton.Closure
import RegexNfa.Proofs.Run.Rejection
import RegexNfa.Proofs.Run.Retelling
import RegexNfa.Proofs.Run.Escape
import RegexNfa.Proofs.Path.Leading
import RegexNfa.Proofs.Arena.Edges
import RegexNfa.Proofs.Arena.Intact
import RegexNfa.Proofs.Arena.Growth
import RegexNfa.Proofs.Arena.Rules
import RegexNfa.Proofs.Arena.Language
import RegexNfa.Proofs.Arena.Spelling
import RegexNfa.Proofs.Arena.DeadEnds
import RegexNfa.Proofs.Arena.Assembled
import RegexNfa.Proofs.Arena.Layout
import RegexNfa.Proofs.Arena.Log
import RegexNfa.Proofs.Arena.Refusal
import RegexNfa.Proofs.Arena.Relocation
import RegexNfa.Proofs.Token.Reading
import RegexNfa.Proofs.Token.Tiling
import RegexNfa.Proofs.Token.Marks
import RegexNfa.Proofs.Token.Slices
import RegexNfa.Proofs.Token.Sending
import RegexNfa.Proofs.Token.Shunting
import RegexNfa.Proofs.Token.Unpaired
import RegexNfa.Proofs.Token.Operands
import RegexNfa.Proofs.Token.ExplicitForm
import RegexNfa.Proofs.Token.Words
import RegexNfa.Proofs.Token.Partners
import RegexNfa.Proofs.Token.Sides
import RegexNfa.Proofs.Token.RightOperand
import RegexNfa.Proofs.Expression.Parsing
import RegexNfa.Proofs.Expression.Readback
import RegexNfa.Proofs.Expression.Tally
import RegexNfa.Proofs.Expression.Parity
import RegexNfa.Proofs.Expression.Listing
import RegexNfa.Proofs.Compilation.Outcome
import RegexNfa.Proofs.Compilation.Acceptance
import RegexNfa.Proofs.Compilation.Rejection
import RegexNfa.Proofs.Compilation.Layout
import RegexNfa.Proofs.Compilation.Identity
import RegexNfa.Proofs.Compilation.Log
import RegexNfa.Proofs.Compilation.Size
import RegexNfa.Proofs.Compilation.NormalForm
import RegexNfa.Proofs.Compilation.GraphIdentity
import RegexNfa.Proofs.Compilation.Safety
import RegexNfa.Proofs.Compilation.Brackets
import RegexNfa.Proofs.Compilation.Blame
import RegexNfa.Proofs.Compilation.Highlight
import RegexNfa.Proofs.Text.Quoted
import RegexNfa.Proofs.Text.Decoration
import RegexNfa.Proofs.Text.Lines
import RegexNfa.Proofs.Compilation.Lines
import RegexNfa.Proofs.CommandLine.Exec
import RegexNfa.Proofs.CommandLine.Agreement
import RegexNfa.Proofs.CommandLine.Stdin
import RegexNfa.Proofs.CommandLine.Items
import RegexNfa.Proofs.CommandLine.Lines
import RegexNfa.Proofs.CommandLine.Inputs
import RegexNfa.Proofs.CommandLine.Decoration
import RegexNfa.Proofs.CommandLine.Distribution
