import PatternTree.Main
import PatternTree.Proofs.Cycles
import PatternTree.Proofs.Depth
import PatternTree.Proofs.Indices
import PatternTree.Proofs.Lossless
import PatternTree.Proofs.Postorder
import PatternTree.Proofs.Ranking
import PatternTree.Proofs.References
import PatternTree.Proofs.Reparse
import PatternTree.Proofs.RoundTrip
import PatternTree.Proofs.Safety
import PatternTree.Proofs.Links
import PatternTree.Proofs.AddedEdge
import PatternTree.Proofs.Preorder
import PatternTree.Proofs.Sharing
import PatternTree.Proofs.Forest
import PatternTree.Proofs.Grammar.Names
import PatternTree.Proofs.Alternation
import PatternTree.Proofs.Enclosing
import PatternTree.Proofs.NormalForm
import PatternTree.Proofs.SharedNames
import PatternTree.Proofs.ViablePrefix
import PatternTree.Proofs.Unfolding
import PatternTree.Proofs.Listing
import PatternTree.Proofs.NextIndex
import PatternTree.Proofs.CommandLine.Batch
import PatternTree.Proofs.CommandLine.Sources
import PatternTree.Proofs.Dialect
import PatternTree.Proofs.Bracket.Doubling
import PatternTree.Proofs.Bracket.Endpoints
import PatternTree.Proofs.Bracket.Extension
import PatternTree.Proofs.CharClass.Sweep
import PatternTree.Proofs.Token.Counts
import PatternTree.Proofs.Token.Extension
import PatternTree.Proofs.Token.Locality
import PatternTree.Proofs.Quoting
import PatternTree.Proofs.UnsupportedGroups
