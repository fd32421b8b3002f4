import PatternTree.Pattern.Walk

namespace PatternTree

/-- A way in which a graph of numbered nodes is no tree. -/
inductive Defect where
  /-- Several nodes hang at one index of a parent. The child named is the first that differs
      from the one that came first. -/
  | nonUniqueChild (parent index child : Nat)
  /-- A node is its own descendant. -/
  | cyclic (node : Nat)
  /-- A parent has a child at an index but none at the one before. -/
  | nonConsecutive (parent index : Nat)
  deriving DecidableEq, Repr

namespace Defect

/-- The name of the kind of a defect in reports. -/
def kindName : Defect → String
  | nonUniqueChild .. => "NonUniqueChild"
  | cyclic _ => "Cyclic"
  | nonConsecutive .. => "NonConsecutive"

/-- The parent concerned, which for a cycle is the node itself. -/
def parent : Defect → Nat
  | nonUniqueChild parent _ _ | nonConsecutive parent _ => parent
  | cyclic node => node

/-- The index concerned, of which a cycle has none. -/
def index? : Defect → Option Nat
  | nonUniqueChild _ index _ | nonConsecutive _ index => some index
  | cyclic _ => none

/-- The child concerned, of which a gap has none. -/
def child? : Defect → Option Nat
  | nonUniqueChild _ _ child => some child
  | cyclic node => some node
  | nonConsecutive .. => none

/-- What is said of a defect. The index before zero is zero. -/
def message : Defect → String
  | nonUniqueChild parent index child =>
    "#" ++ toString parent ++ " has more than one child at index " ++ toString index ++ " (#" ++
      toString child ++ " conflicts)"
  | cyclic node => "#" ++ toString node ++ " is its own descendant"
  | nonConsecutive parent index =>
    "#" ++ toString parent ++ " has a child at index " ++ toString index ++ " but none at " ++
      toString (index - 1)

end Defect

namespace Node

/-- Puts a number into an ascending list, unless it is there already. -/
def insertIndex (index : Nat) : List Nat → List Nat
  | [] => [index]
  | other :: rest =>
    if index < other then index :: other :: rest
    else if index = other then other :: rest
    else other :: insertIndex index rest

theorem mem_insertIndex {index other : Nat} {indices : List Nat} :
    other ∈ insertIndex index indices ↔ other = index ∨ other ∈ indices := by
  induction indices with
  | nil => simp [insertIndex]
  | cons first rest ih =>
    unfold insertIndex
    split
    · simp
    · split
      next heq => simp [heq]
      · simp only [List.mem_cons, ih]
        constructor
        · rintro (hfirst | hindex | hrest)
          · exact .inr (.inl hfirst)
          · exact .inl hindex
          · exact .inr (.inr hrest)
        · rintro (hindex | hfirst | hrest)
          · exact .inr (.inl hindex)
          · exact .inl hfirst
          · exact .inr (.inr hrest)

/-- The indices of a node's slots in ascending order, each once. -/
def indices (node : Node) : List Nat :=
  node.slots.foldr (fun slot indices => insertIndex slot.index indices) []

theorem mem_indices {node : Node} {index : Nat} :
    index ∈ node.indices ↔ ∃ slot ∈ node.slots, slot.index = index := by
  unfold indices
  induction node.slots with
  | nil => simp
  | cons slot slots ih => simp [mem_insertIndex, ih, eq_comm]

/-- The first child at an index that differs from the one that came first there. -/
def conflicting? (index : Nat) (node : Node) : Option Nat :=
  (node.child? index).bind fun occupant =>
    (node.slots.find? fun slot => slot.index == index && slot.child != occupant).map Slot.child

/-- An index above zero with a child, when there is none at the index before. -/
def followsGap (index : Nat) (node : Node) : Bool :=
  index != 0 && (node.child? (index - 1)).isNone

end Node

namespace Pattern

/-- The nodes with their numbers. -/
def numberedNodes (pattern : Pattern) : List (Node × Nat) :=
  pattern.nodes.toList.zipIdx

/-- The indices at which several nodes hang, by parent and index. -/
def nonUniqueChildren (pattern : Pattern) : List Defect :=
  pattern.numberedNodes.flatMap fun (node, id) =>
    node.indices.filterMap fun index =>
      (node.conflicting? index).map fun child => .nonUniqueChild id index child

/-- Whether a way of one or more edges leads from a node back to it. -/
def isCyclic (pattern : Pattern) (id : Nat) : Bool :=
  (pattern.visits 0 (pattern.childrenOf id)).any (·.node == id)

/-- The nodes that are their own descendants, by number. -/
def cyclicNodes (pattern : Pattern) : List Defect :=
  ((List.range pattern.nodes.size).filter pattern.isCyclic).map .cyclic

/-- The indices after a gap, by parent and index. -/
def nonConsecutiveIndices (pattern : Pattern) : List Defect :=
  pattern.numberedNodes.flatMap fun (node, id) =>
    (node.indices.filter fun index => node.followsGap index).map fun index =>
      .nonConsecutive id index

/-- All defects of a pattern: several children at one index, then cycles, then gaps. -/
def defects (pattern : Pattern) : List Defect :=
  pattern.nonUniqueChildren ++ pattern.cyclicNodes ++ pattern.nonConsecutiveIndices

end Pattern

/-- The defects of several patterns, each with the position of its pattern. -/
def defectsOfAll (patterns : List Pattern) : List (Nat × Defect) :=
  patterns.zipIdx.flatMap fun (pattern, position) =>
    pattern.defects.map fun defect => (position, defect)

end PatternTree
