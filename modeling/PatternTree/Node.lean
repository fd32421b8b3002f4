import PatternTree.Label

namespace PatternTree

/-- An edge to a child: the child's number and the index it has among its siblings. -/
structure Slot where
  index : Nat
  child : Nat
  deriving DecidableEq, Repr

/-- The edge by which a node hangs below its parent, as the node knows it. -/
structure Attachment where
  parent : Nat
  index : Nat
  deriving DecidableEq, Repr

/-- A node of a numbered tree. Its slots keep the order in which they were added; nothing keeps
    their indices contiguous or different. -/
structure Node where
  label : Label
  span : Span
  attachment : Option Attachment := none
  slots : List Slot := []
  deriving DecidableEq, Repr

namespace Node

/-- The children in the order of the slots. -/
def children (node : Node) : List Nat :=
  node.slots.map Slot.child

/-- The child at an index, which is the first one of several. -/
def child? (index : Nat) (node : Node) : Option Nat :=
  (node.slots.find? (·.index == index)).map Slot.child

/-- Adds a slot behind the others. -/
def addSlot (slot : Slot) (node : Node) : Node :=
  { node with slots := node.slots ++ [slot] }

end Node

end PatternTree
