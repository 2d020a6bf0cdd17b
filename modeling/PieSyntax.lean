import PieSyntax.Main
import PieSyntax.Parsing.Extension
import PieSyntax.Sample.Program
import PieSyntax.Proofs.Ceiling
import PieSyntax.Proofs.Reader
import PieSyntax.Proofs.Translation
import PieSyntax.Proofs.Meaning
import PieSyntax.Proofs.Subexpressions
import PieSyntax.Proofs.WellFormed
import PieSyntax.Proofs.Layout
import PieSyntax.Proofs.Printing
import PieSyntax.Proofs.RoundTrip
import PieSyntax.Proofs.Invariant
import PieSyntax.Proofs.Cut
import PieSyntax.Proofs.Spans
import PieSyntax.Proofs.EntryPoints
import PieSyntax.Proofs.Completion
import PieSyntax.Proofs.Hints
import PieSyntax.Proofs.Deepest
import PieSyntax.Proofs.Placement
import PieSyntax.Proofs.Subruns
import PieSyntax.Proofs.Elsewhere
import PieSyntax.Proofs.Growth
import PieSyntax.Proofs.MovedSession
import PieSyntax.Proofs.Resuming
import PieSyntax.Proofs.Joining
import PieSyntax.Proofs.FormByForm
import PieSyntax.Proofs.Interrupted
import PieSyntax.Proofs.Progress
import PieSyntax.Proofs.Unreported
import PieSyntax.Proofs.Informative
import PieSyntax.Proofs.Descent
import PieSyntax.Proofs.Productions
import PieSyntax.Proofs.InputEnd
import PieSyntax.Proofs.LineEndings
import PieSyntax.Proofs.Draws
import PieSyntax.Proofs.Written
import PieSyntax.Proofs.Generated
import PieSyntax.Proofs.Reordering
import PieSyntax.Proofs.Exclusion
import PieSyntax.Proofs.Choices
import PieSyntax.Proofs.Longest
import PieSyntax.Proofs.CommentedOut
import PieSyntax.Proofs.Arrangement
import PieSyntax.Proofs.UpToEnd
import PieSyntax.Proofs.DeepestParen
import PieSyntax.Proofs.EntryOrder
import PieSyntax.Proofs.TreeDecoding
