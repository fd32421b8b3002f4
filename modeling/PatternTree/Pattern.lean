import PatternTree.Draft
import PatternTree.Text.Utf8

namespace PatternTree

/-- A finished tree together with the text it belongs to. Trees that were read from a text are
    sound; one that was assembled by hand may have any shape, and its root need not exist. -/
structure Pattern extends Draft where
  source : String
  root : Nat
  deriving DecidableEq, Repr

/-- Declares a draft finished. Nothing is checked. -/
def Draft.finish (source : String) (root : Nat) (draft : Draft) : Pattern :=
  { draft with source, root }

namespace Pattern

/-- The node with a number. -/
def node? (id : Nat) (pattern : Pattern) : Option Node :=
  pattern.nodes[id]?

/-- The part of the source under a node's span. -/
def text? (id : Nat) (pattern : Pattern) : Option String :=
  (pattern.node? id).bind fun node =>
    (Text.slice? node.span.start node.span.stop pattern.source.toList).map String.ofList

/-- The children of a node. A node that does not exist has none. -/
def childrenOf (id : Nat) (pattern : Pattern) : List Nat :=
  ((pattern.node? id).map Node.children).getD []

end Pattern

end PatternTree
