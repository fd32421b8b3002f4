import PatternTree.Node
import PatternTree.Tree

namespace PatternTree

mutual

/-- The number of nodes of a tree. -/
def Tree.size : Tree → Nat
  | .node _ _ children => Tree.sizes children + 1

/-- The number of nodes of several trees. -/
def Tree.sizes : List Tree → Nat
  | [] => 0
  | tree :: trees => tree.size + Tree.sizes trees

end

/-- The slots of a node whose children are laid out one after the other from `first` on. The
    root of each comes last in it. -/
def Tree.slots (first index : Nat) : List Tree → List Slot
  | [] => []
  | tree :: trees =>
    ⟨index, first + tree.size - 1⟩ :: Tree.slots (first + tree.size) (index + 1) trees

mutual

/-- The nodes of a tree in post-order, numbered from `first` on. -/
def Tree.layout (first : Nat) (attachment : Option Attachment) : Tree → List Node
  | .node label span children =>
    Tree.layouts first (first + Tree.sizes children) 0 children ++
      [{ label, span, attachment, slots := Tree.slots first 0 children }]

/-- The nodes of the children of `parent` from an index on, numbered from `first` on. -/
def Tree.layouts (first parent index : Nat) : List Tree → List Node
  | [] => []
  | tree :: trees =>
    tree.layout first (some ⟨parent, index⟩) ++
      Tree.layouts (first + tree.size) parent (index + 1) trees

end

mutual

theorem Tree.length_layout (first : Nat) (attachment : Option Attachment) (tree : Tree) :
    (tree.layout first attachment).length = tree.size := by
  cases tree with
  | node label span children =>
    simp [Tree.layout, Tree.size, Tree.length_layouts]

theorem Tree.length_layouts (first parent index : Nat) (trees : List Tree) :
    (Tree.layouts first parent index trees).length = Tree.sizes trees := by
  cases trees with
  | nil => rfl
  | cons tree trees =>
    simp [Tree.layouts, Tree.sizes, Tree.length_layout, Tree.length_layouts]

end

end PatternTree
