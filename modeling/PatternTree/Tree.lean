import PatternTree.Label

namespace PatternTree

/-- A tree of labelled pieces of a pattern. -/
inductive Tree where
  | node (label : Label) (span : Span) (children : List Tree)
  deriving Repr

namespace Tree

/-- What the root stands for. -/
def label : Tree → Label
  | node label _ _ => label

/-- The place of the whole tree. -/
def span : Tree → Span
  | node _ span _ => span

/-- The trees directly below the root. -/
def children : Tree → List Tree
  | node _ _ children => children

/-- A tree without children. -/
def leaf (label : Label) (span : Span) : Tree :=
  node label span []

/-- The span from the start of the first tree to the end of the last one. No trees take no
    bytes, at `offset`. -/
def cover (offset : Nat) (trees : List Tree) : Span :=
  match trees.head?, trees.getLast? with
  | some first, some last => first.span.through last.span
  | _, _ => .empty offset

/-- The items of a branch as one tree. A single item needs no node around it. -/
def sequence (offset : Nat) : List Tree → Tree
  | [item] => item
  | items => node .concatenation (cover offset items) items

/-- The branches of a pattern or group as one tree. A single branch needs no node around
    it. -/
def choice (offset : Nat) : List Tree → Tree
  | [branch] => branch
  | branches => node .alternation (cover offset branches) branches

end Tree

end PatternTree
