import PatternTree.Pattern

namespace PatternTree

/-- An edge between two nodes of a draft. -/
structure Edge where
  parent : Nat
  index : Nat
  child : Nat
  deriving DecidableEq, Repr

/-- An edge as its parent keeps it. -/
def Edge.slot (edge : Edge) : Slot :=
  ⟨edge.index, edge.child⟩

namespace Draft

/-- A change of a draft. -/
inductive Edit where
  | push (label : Label) (span : Span)
  | attach (parent child : Nat)
  | attachAt (parent index child : Nat)
  | setLabel (id : Nat) (label : Label)
  | declareGroup (number node : Nat) (name : Option String)
  | diagnose (diagnostic : Diagnostic)
  deriving DecidableEq, Repr

namespace Edit

/-- Makes a change, unless it concerns a node that does not exist. -/
def change? (draft : Draft) : Edit → Option Draft
  | push label span => some (draft.push label span).1
  | attach parent child => (draft.attach? parent child).map Prod.fst
  | attachAt parent index child => draft.attachAt? parent index child
  | setLabel id label => (draft.setLabel? id label).map Prod.fst
  | declareGroup number node name => some (draft.declareGroup number node name)
  | diagnose diagnostic => some (draft.diagnose diagnostic)

/-- The edge that a change adds to others. Without an index of its own it gets the number of edges
    that its parent has. -/
def edge? (edges : List Edge) : Edit → Option Edge
  | attach parent child => some ⟨parent, edges.countP (·.parent = parent), child⟩
  | attachAt parent index child => some ⟨parent, index, child⟩
  | _ => none

/-- Whether a change adds a node. -/
def isPush : Edit → Bool
  | push _ _ => true
  | _ => false

/-- The parent and the child that a change joins. -/
def ends? : Edit → Option (Nat × Nat)
  | attach parent child => some (parent, child)
  | attachAt parent _ child => some (parent, child)
  | _ => none

/-- The edges that changes add to others, in the order in which they are attached. -/
def attached (edges : List Edge) : List Edit → List Edge
  | [] => edges
  | edit :: edits => attached (edges ++ (edit.edge? edges).toList) edits

end Edit

/-- The draft that changes make of an empty one. -/
def build? (edits : List Edit) : Option Draft :=
  edits.foldlM Edit.change? {}

/-- The nodes of a draft have exactly the given edges. -/
structure Keeps (draft : Draft) (edges : List Edge) : Prop where
  /-- A node has its edges in the order in which they were attached. -/
  slots : ∀ id node, draft.nodes[id]? = some node →
    node.slots = (edges.filter (·.parent = id)).map Edge.slot
  parent_lt : ∀ edge ∈ edges, edge.parent < draft.nodes.size
  child_lt : ∀ edge ∈ edges, edge.child < draft.nodes.size

theorem keeps_empty : ({} : Draft).Keeps [] where
  slots := by simp
  parent_lt := by simp
  child_lt := by simp

/-- An edge can be attached between nodes that exist, and it adds none. -/
theorem lt_of_attachAt?_eq_some {draft next : Draft} {parent index child : Nat}
    (hattach : draft.attachAt? parent index child = some next) :
    parent < draft.nodes.size ∧ child < draft.nodes.size ∧
      next.nodes.size = draft.nodes.size := by
  unfold attachAt? at hattach
  split at hattach
  next hexists =>
    simp only [Bool.and_eq_true, decide_eq_true_eq] at hexists
    cases hattach
    exact ⟨hexists.1, hexists.2, by simp⟩
  · cases hattach

theorem attach?_eq_some_iff {draft next : Draft} {parent child : Nat} :
    (draft.attach? parent child).map Prod.fst = some next ↔
      ∃ node, draft.nodes[parent]? = some node ∧
        draft.attachAt? parent node.slots.length child = some next := by
  unfold attach?
  cases draft.nodes[parent]? with
  | none => simp
  | some node => simp [Option.map_map, Function.comp_def]

namespace Keeps

variable {draft next : Draft} {edges : List Edge}

/-- No edge starts at a node that does not exist. -/
theorem filter_eq_nil (hkeeps : draft.Keeps edges) {id : Nat} (hid : draft.nodes.size ≤ id) :
    edges.filter (·.parent = id) = [] := by
  rw [List.filter_eq_nil_iff]
  intro edge hedge hparent
  have hlt := hkeeps.parent_lt edge hedge
  have heq := of_decide_eq_true hparent
  omega

/-- A change that leaves the edges of all nodes alone keeps them. -/
theorem of_slots_eq (hkeeps : draft.Keeps edges) (hsize : next.nodes.size = draft.nodes.size)
    (hslots : ∀ id : Nat, (next.nodes[id]?).map Node.slots = (draft.nodes[id]?).map Node.slots) :
    next.Keeps edges where
  slots id node hnode := by
    have hsame := hslots id
    rw [hnode, Option.map_some, eq_comm, Option.map_eq_some_iff] at hsame
    obtain ⟨before, hbefore, hsame⟩ := hsame
    rw [← hsame, hkeeps.slots id before hbefore]
  parent_lt edge hedge := hsize ▸ hkeeps.parent_lt edge hedge
  child_lt edge hedge := hsize ▸ hkeeps.child_lt edge hedge

theorem push (hkeeps : draft.Keeps edges) (label : Label) (span : Span) :
    (draft.push label span).1.Keeps edges where
  slots id node hnode := by
    rw [Draft.push, Array.getElem?_push] at hnode
    split at hnode
    next hid =>
      cases hnode
      rw [hkeeps.filter_eq_nil (Nat.le_of_eq hid.symm)]
      rfl
    · exact hkeeps.slots id node hnode
  parent_lt edge hedge := by
    rw [Draft.push, Array.size_push]
    exact Nat.lt_succ_of_lt (hkeeps.parent_lt edge hedge)
  child_lt edge hedge := by
    rw [Draft.push, Array.size_push]
    exact Nat.lt_succ_of_lt (hkeeps.child_lt edge hedge)

theorem attachAt (hkeeps : draft.Keeps edges) {parent index child : Nat}
    (hattach : draft.attachAt? parent index child = some next) :
    next.Keeps (edges ++ [⟨parent, index, child⟩]) := by
  obtain ⟨hparent, hchild, hsize⟩ := lt_of_attachAt?_eq_some hattach
  constructor
  · intro id node hnode
    rw [getElem?_of_attachAt?_eq_some hattach, Option.map_eq_some_iff] at hnode
    obtain ⟨before, hbefore, rfl⟩ := hnode
    have hslots : ∀ extended : Node, (if id = child then
        { extended with attachment := some ⟨parent, index⟩ } else extended).slots =
          extended.slots := by
      intro extended
      split <;> rfl
    rw [hslots, List.filter_append, List.map_append, ← hkeeps.slots id before hbefore]
    by_cases hid : id = parent
    · simp [hid, Node.addSlot, Edge.slot]
    · have hother : ¬ parent = id := fun heq => hid heq.symm
      simp [hid, hother]
  · intro edge hedge
    rw [hsize]
    obtain hedge | hedge := List.mem_append.mp hedge
    · exact hkeeps.parent_lt edge hedge
    · exact List.mem_singleton.mp hedge ▸ hparent
  · intro edge hedge
    rw [hsize]
    obtain hedge | hedge := List.mem_append.mp hedge
    · exact hkeeps.child_lt edge hedge
    · exact List.mem_singleton.mp hedge ▸ hchild

/-- A change adds its edge and leaves the others as they were attached. -/
theorem apply (hkeeps : draft.Keeps edges) {edit : Edit} (hedit : edit.change? draft = some next) :
    next.Keeps (edges ++ (edit.edge? edges).toList) := by
  have hsame : ∀ {next : Draft}, next.Keeps edges →
      next.Keeps (edges ++ (none : Option Edge).toList) := by
    simp
  cases edit with
  | push label span =>
    cases hedit
    exact hsame (hkeeps.push label span)
  | attach parent child =>
    obtain ⟨node, hnode, hattach⟩ := attach?_eq_some_iff.mp hedit
    rw [hkeeps.slots parent node hnode, List.length_map, ← List.countP_eq_length_filter] at hattach
    exact hkeeps.attachAt hattach
  | attachAt parent index child => exact hkeeps.attachAt hedit
  | setLabel id label =>
    simp only [Edit.change?, setLabel?, Option.map_map, Option.map_eq_some_iff] at hedit
    obtain ⟨node, -, rfl⟩ := hedit
    refine hsame (hkeeps.of_slots_eq (by simp) fun other => ?_)
    simp only [Function.comp_apply, Array.getElem?_modify]
    split <;> simp [Function.comp_def]
  | declareGroup number node name =>
    cases hedit
    exact hsame (hkeeps.of_slots_eq rfl fun _ => rfl)
  | diagnose diagnostic =>
    cases hedit
    exact hsame (hkeeps.of_slots_eq rfl fun _ => rfl)

end Keeps

theorem Keeps.foldlM {edits : List Edit} {start draft : Draft} {edges : List Edge}
    (hkeeps : start.Keeps edges) (hfold : edits.foldlM Edit.change? start = some draft) :
    draft.Keeps (Edit.attached edges edits) := by
  induction edits generalizing start edges with
  | nil =>
    cases hfold
    exact hkeeps
  | cons edit edits ih =>
    obtain ⟨next, hedit, hfold⟩ := Option.bind_eq_some_iff.mp hfold
    exact ih (hkeeps.apply hedit) hfold

/-- The draft that changes build has the edges that they add. -/
theorem keeps_of_build?_eq_some {edits : List Edit} {draft : Draft}
    (hbuild : build? edits = some draft) : draft.Keeps (Edit.attached [] edits) :=
  keeps_empty.foldlM hbuild

/-- Only a push adds a node. -/
theorem size_nodes_of_change?_eq_some {draft next : Draft} {edit : Edit}
    (hedit : edit.change? draft = some next) :
    next.nodes.size = draft.nodes.size + if edit.isPush then 1 else 0 := by
  cases edit with
  | push label span =>
    cases hedit
    exact Array.size_push _
  | attach parent child =>
    obtain ⟨node, -, hattach⟩ := attach?_eq_some_iff.mp hedit
    exact (lt_of_attachAt?_eq_some hattach).2.2
  | attachAt parent index child => exact (lt_of_attachAt?_eq_some hedit).2.2
  | setLabel id label =>
    simp only [Edit.change?, setLabel?, Option.map_map, Option.map_eq_some_iff] at hedit
    obtain ⟨node, -, rfl⟩ := hedit
    exact Array.size_modify
  | declareGroup number node name =>
    cases hedit
    rfl
  | diagnose diagnostic =>
    cases hedit
    rfl

theorem size_nodes_of_foldlM_eq_some {edits : List Edit} {start draft : Draft}
    (hfold : edits.foldlM Edit.change? start = some draft) :
    draft.nodes.size = start.nodes.size + edits.countP Edit.isPush := by
  induction edits generalizing start with
  | nil =>
    cases hfold
    rfl
  | cons edit edits ih =>
    obtain ⟨next, hedit, hfold⟩ := Option.bind_eq_some_iff.mp hfold
    rw [ih hfold, size_nodes_of_change?_eq_some hedit, List.countP_cons]
    omega

/-- Edges join the nodes that the changes join. -/
theorem Edit.map_ends_attached (edges : List Edge) (edits : List Edit) :
    (attached edges edits).map (fun edge => (edge.parent, edge.child)) =
      edges.map (fun edge => (edge.parent, edge.child)) ++ edits.filterMap ends? := by
  induction edits generalizing edges with
  | nil => simp [attached]
  | cons edit edits ih =>
    rw [attached, ih, List.map_append, List.append_assoc, List.filterMap_cons]
    cases edit <;> rfl

namespace Keeps

variable {draft : Draft} {edges : List Edge}

/-- The children of a node are those that its edges lead to. -/
theorem childrenOf_finish (hkeeps : draft.Keeps edges) (source : String) (root id : Nat) :
    (draft.finish source root).childrenOf id =
      (edges.filter (·.parent = id)).map Edge.child := by
  rw [Pattern.childrenOf, Pattern.node?]
  cases hnode : (draft.finish source root).nodes[id]? with
  | none =>
    rw [hkeeps.filter_eq_nil (Array.getElem?_eq_none_iff.mp hnode)]
    rfl
  | some node =>
    rw [Option.map_some, Option.getD_some, Node.children, hkeeps.slots id node hnode, List.map_map]
    rfl

/-- Edges do not dangle. -/
theorem lt_of_mem_childrenOf (hkeeps : draft.Keeps edges) {source : String} {root id child : Nat}
    (hchild : child ∈ (draft.finish source root).childrenOf id) : child < draft.nodes.size := by
  rw [hkeeps.childrenOf_finish] at hchild
  obtain ⟨edge, hedge, rfl⟩ := List.mem_map.mp hchild
  exact hkeeps.child_lt edge (List.mem_filter.mp hedge).1

end Keeps

/-- A node is a child of the nodes below which changes attach it. -/
theorem mem_childrenOf_iff {edits : List Edit} {draft : Draft} (hbuild : build? edits = some draft)
    {source : String} {root parent child : Nat} :
    child ∈ (draft.finish source root).childrenOf parent ↔
      (parent, child) ∈ edits.filterMap Edit.ends? := by
  have hends := Edit.map_ends_attached [] edits
  rw [(keeps_of_build?_eq_some hbuild).childrenOf_finish, ← List.nil_append (List.filterMap _ _)]
  rw [List.map_nil] at hends
  rw [← hends]
  simp only [List.mem_map, List.mem_filter, decide_eq_true_eq, Prod.mk.injEq]
  constructor
  · rintro ⟨edge, ⟨hedge, hparent⟩, hchild⟩
    exact ⟨edge, hedge, hparent, hchild⟩
  · rintro ⟨edge, hedge, hparent, hchild⟩
    exact ⟨edge, ⟨hedge, hparent⟩, hchild⟩

end Draft

end PatternTree
