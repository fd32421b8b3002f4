import PatternTree.GroupTable

namespace PatternTree

/-- A tree under construction. Nodes are numbered in the order in which they were added. -/
structure Draft where
  nodes : Array Node := #[]
  groups : GroupTable := {}
  diagnostics : List Diagnostic := []
  deriving DecidableEq, Repr

namespace Draft

/-- Adds a node without children or parent, which gets the next number. -/
def push (label : Label) (span : Span) (draft : Draft) : Draft × Nat :=
  ({ draft with nodes := draft.nodes.push { label, span } }, draft.nodes.size)

/-- Makes one node a child of another at an index, whatever children the parent has and
    whatever parent the child had. Both have to exist. -/
def attachAt? (parent index child : Nat) (draft : Draft) : Option Draft :=
  if parent < draft.nodes.size && child < draft.nodes.size then
    let nodes := draft.nodes.modify parent (Node.addSlot ⟨index, child⟩)
    some { draft with
      nodes := nodes.modify child fun node => { node with attachment := some ⟨parent, index⟩ } }
  else none

/-- Makes one node a child of another at the index that counts the parent's slots. -/
def attach? (parent child : Nat) (draft : Draft) : Option (Draft × Nat) :=
  match draft.nodes[parent]? with
  | none => none
  | some node => (draft.attachAt? parent node.slots.length child).map (·, node.slots.length)

/-- The edge goes behind the parent's other slots and replaces what the child knew of its
    parent; no other node changes. -/
theorem getElem?_of_attachAt?_eq_some {draft next : Draft} {parent index child : Nat}
    (hattach : draft.attachAt? parent index child = some next) (id : Nat) :
    next.nodes[id]? = (draft.nodes[id]?).map fun node =>
      let extended := if id = parent then node.addSlot ⟨index, child⟩ else node
      if id = child then { extended with attachment := some ⟨parent, index⟩ } else extended := by
  unfold attachAt? at hattach
  split at hattach
  · cases hattach
    simp only [Array.getElem?_modify]
    by_cases hparent : parent = id <;> by_cases hchild : child = id <;>
      simp [hparent, hchild, eq_comm, Function.comp_def]
  · cases hattach

/-- Gives a node another label, and tells the one it had. -/
def setLabel? (id : Nat) (label : Label) (draft : Draft) : Option (Draft × Label) :=
  (draft.nodes[id]?).map fun node =>
    ({ draft with nodes := draft.nodes.modify id fun node => { node with label } }, node.label)

/-- Makes a number a group's. The number of the node is not looked at. -/
def declareGroup (number node : Nat) (name : Option String) (draft : Draft) : Draft :=
  { draft with groups := draft.groups.declare number node name }

/-- Adds a finding behind the others. -/
def diagnose (diagnostic : Diagnostic) (draft : Draft) : Draft :=
  { draft with diagnostics := draft.diagnostics ++ [diagnostic] }

end Draft

end PatternTree
