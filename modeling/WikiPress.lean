import WikiPress.Files.Tree
import WikiPress.Main
import WikiPress.Proofs.Ancestry
import WikiPress.Proofs.BareBars
import WikiPress.Proofs.CardLabel
import WikiPress.Proofs.Conduct
import WikiPress.Proofs.FailedMacro
import WikiPress.Proofs.Independence
import WikiPress.Proofs.IssueTable
import WikiPress.Proofs.LinkedPages
import WikiPress.Proofs.Listing
import WikiPress.Proofs.Marker
import WikiPress.Proofs.NodeText
import WikiPress.Proofs.NodeValue
import WikiPress.Proofs.Numeral
import WikiPress.Proofs.Once
import WikiPress.Proofs.Order
import WikiPress.Proofs.Outline
import WikiPress.Proofs.PageAddress
import WikiPress.Proofs.Pieces
import WikiPress.Proofs.PlainCell
import WikiPress.Proofs.RelativePath
import WikiPress.Proofs.Reordering
import WikiPress.Proofs.Resolution
import WikiPress.Proofs.Rewritten
import WikiPress.Proofs.Run
import WikiPress.Proofs.Scaling
import WikiPress.Proofs.TextMarks
import WikiPress.Proofs.TitleLine
import WikiPress.Proofs.Unseen
import WikiPress.Proofs.Winning
