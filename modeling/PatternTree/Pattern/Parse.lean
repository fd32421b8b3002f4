import PatternTree.Pattern
import PatternTree.Pattern.Layout
import PatternTree.Tree.Parser

namespace PatternTree

namespace Pattern

/-- Numbers a tree and settles its references. Nodes are numbered in post-order, so that groups
    are declared in the order in which they close, and a reference finds groups on either side
    of it. -/
def ofTree (source : String) (tree : Tree) : Pattern :=
  let nodes := tree.layout 0 none
  let groups := GroupTable.ofNodes nodes
  let settled := nodes.map fun node => { node with label := groups.resolve node.label }
  { nodes := settled.toArray
    groups
    diagnostics := settled.filterMap GroupTable.diagnose?
    source
    root := settled.length - 1 }

end Pattern

/-- Reads a pattern. -/
def parse (dialect : Dialect) (source : String) : Except PatternError Pattern :=
  (Tree.ofText dialect source.toList).map (Pattern.ofTree source)

end PatternTree
