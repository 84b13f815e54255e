import HclTidy.Block.Notices
import HclTidy.Block.Render
import HclTidy.CommandLine.Run
import HclTidy.Grouping
import HclTidy.Main
import HclTidy.Organize.Run
import HclTidy.Proofs.Block.Body
import HclTidy.Proofs.Block.CommentTokens
import HclTidy.Proofs.Block.Comments
import HclTidy.Proofs.Block.Labels
import HclTidy.Proofs.Block.LineBreaks
import HclTidy.Proofs.Block.RoundTrip
import HclTidy.Proofs.Block.Sound
import HclTidy.Proofs.Block.Trimmed
import HclTidy.Proofs.Block.Values
import HclTidy.Proofs.Block.Verbatim
import HclTidy.Proofs.Config.Loading
import HclTidy.Proofs.Expr.Heredocs
import HclTidy.Proofs.Grouping.Duplicates
import HclTidy.Proofs.Grouping.Order
import HclTidy.Proofs.Indexed.Range
import HclTidy.Proofs.Layout.Cells
import HclTidy.Proofs.Layout.Columns
import HclTidy.Proofs.Layout.Indents
import HclTidy.Proofs.Layout.Preserved
import HclTidy.Proofs.Organize.Again
import HclTidy.Proofs.Organize.Backup
import HclTidy.Proofs.Organize.Cleared
import HclTidy.Proofs.Organize.Elsewhere
import HclTidy.Proofs.Organize.Plan
import HclTidy.Proofs.PathCheck
import HclTidy.Proofs.Pattern
import HclTidy.Proofs.Routing.Precedence
import HclTidy.Proofs.Template.Escape
import HclTidy.Proofs.Template.Grammar
import HclTidy.Proofs.Token.Strings
import HclTidy.Proofs.Token.Tiling
