import PatternTree.Pattern.Parse

namespace PatternTree

/-- Nodes that stand one after the other among others from a number on. -/
def Lies (nodes : List Node) (first : Nat) (block : List Node) : Prop :=
  ∃ front back, nodes = front ++ block ++ back ∧ front.length = first

namespace Lies

variable {nodes block front back : List Node} {first : Nat}

theorem whole (nodes : List Node) : Lies nodes 0 nodes :=
  ⟨[], [], by simp, rfl⟩

theorem left (hlies : Lies nodes first (front ++ back)) : Lies nodes first front := by
  obtain ⟨before, after, rfl, rfl⟩ := hlies
  exact ⟨before, back ++ after, by simp, rfl⟩

theorem right (hlies : Lies nodes first (front ++ back)) :
    Lies nodes (first + front.length) back := by
  obtain ⟨before, after, rfl, rfl⟩ := hlies
  exact ⟨before ++ front, after, by simp, by simp⟩

theorem getElem? (hlies : Lies nodes first block) {index : Nat} (hindex : index < block.length) :
    nodes[first + index]? = block[index]? := by
  obtain ⟨before, after, rfl, rfl⟩ := hlies
  rw [List.append_assoc, List.getElem?_append_right (Nat.le_add_right _ _),
    Nat.add_sub_cancel_left, List.getElem?_append_left hindex]

theorem singleton {node : Node} (hlies : Lies nodes first [node]) : nodes[first]? = some node := by
  simpa using hlies.getElem? (Nat.zero_lt_one : 0 < [node].length)

end Lies

namespace Tree

/-- A tree occurs within another one when it is the other one or occurs within a child of it. -/
inductive Within : Tree → Tree → Prop where
  | refl (tree : Tree) : Within tree tree
  | child {label : Label} {span : Span} {children : List Tree} {child sub : Tree}
      (hchild : child ∈ children) (hsub : Within sub child) :
      Within sub (node label span children)

theorem size_pos (tree : Tree) : 0 < tree.size := by
  cases tree
  rw [size]
  omega

/-- The last node of a tree is its root. -/
theorem root_of_lies {nodes : List Node} {first : Nat} {attachment : Option Attachment}
    {label : Label} {span : Span} {children : List Tree}
    (hlies : Lies nodes first ((node label span children).layout first attachment)) :
    nodes[first + sizes children]? =
      some { label, span, attachment, slots := slots first 0 children } := by
  rw [layout] at hlies
  have hroot := hlies.right.singleton
  rwa [length_layouts] at hroot

/-- Only the root of a tree knows where the tree is attached. -/
theorem getElem?_layout (first : Nat) (attachment : Option Attachment) (tree : Tree)
    (index : Nat) :
    (tree.layout first attachment)[index]? = ((tree.layout first none)[index]?).map fun node =>
      if index + 1 = tree.size then { node with attachment } else node := by
  cases tree with
  | node label span children =>
    have hlength := length_layouts first (first + sizes children) 0 children
    rw [layout, layout, size]
    by_cases hindex : index < sizes children
    · have hinner : index ≠ sizes children := by omega
      rw [List.getElem?_append_left (by omega), List.getElem?_append_left (by omega)]
      simp [hinner]
    · rw [List.getElem?_append_right (by omega), List.getElem?_append_right (by omega), hlength]
      by_cases hroot : index = sizes children
      · simp [hroot]
      · have hbeyond : index - sizes children ≠ 0 := by omega
        simp [hbeyond]

mutual

/-- Every node among those of a tree is the root of a tree within it, whose nodes end there. -/
theorem exists_within {nodes : List Node} {first id : Nat} {attachment : Option Attachment}
    (tree : Tree) (hlies : Lies nodes first (tree.layout first attachment))
    (hfirst : first ≤ id) (hid : id < first + tree.size) :
    ∃ (sub : Tree) (start : Nat) (attachment' : Option Attachment), sub.Within tree ∧
      id + 1 = start + sub.size ∧ Lies nodes start (sub.layout start attachment') := by
  cases tree with
  | node label span children =>
    rw [size] at hid
    by_cases hroot : id = first + sizes children
    · exact ⟨_, first, attachment, .refl _, by rw [size]; omega, hlies⟩
    · rw [layout] at hlies
      obtain ⟨child, hchild, sub, start, attachment', hsub, hstart, hlies'⟩ :=
        exists_within_of_mem children hlies.left hfirst (by omega)
      exact ⟨sub, start, attachment', .child hchild hsub, hstart, hlies'⟩

theorem exists_within_of_mem {nodes : List Node} {first parent index id : Nat}
    (trees : List Tree) (hlies : Lies nodes first (layouts first parent index trees))
    (hfirst : first ≤ id) (hid : id < first + sizes trees) :
    ∃ tree ∈ trees, ∃ (sub : Tree) (start : Nat) (attachment' : Option Attachment),
      sub.Within tree ∧ id + 1 = start + sub.size ∧
        Lies nodes start (sub.layout start attachment') := by
  cases trees with
  | nil =>
    rw [sizes] at hid
    omega
  | cons tree trees =>
    rw [sizes] at hid
    rw [layouts] at hlies
    by_cases htree : id < first + tree.size
    · obtain ⟨sub, hsub⟩ := exists_within tree hlies.left hfirst htree
      exact ⟨tree, List.mem_cons_self, sub, hsub⟩
    · have hothers := hlies.right
      rw [length_layout] at hothers
      have hrest : id < first + tree.size + sizes trees := by omega
      obtain ⟨other, hother, hsub⟩ :=
        exists_within_of_mem trees hothers (Nat.le_of_not_lt htree) hrest
      exact ⟨other, List.mem_cons_of_mem _ hother, hsub⟩

end

mutual

/-- The labels of a tree's nodes with their places, children before their parents. -/
def entries : Tree → List (Label × Span)
  | node label span children => entriesIn children ++ [(label, span)]

/-- The labels of the nodes of several trees with their places. -/
def entriesIn : List Tree → List (Label × Span)
  | [] => []
  | tree :: trees => tree.entries ++ entriesIn trees

end

mutual

/-- The entries of a tree are those of its nodes in their order. -/
theorem map_layout (first : Nat) (attachment : Option Attachment) (tree : Tree) :
    (tree.layout first attachment).map (fun node => (node.label, node.span)) = tree.entries := by
  cases tree with
  | node label span children => rw [layout, List.map_append, map_layouts, entries]; rfl

theorem map_layouts (first parent index : Nat) (trees : List Tree) :
    (layouts first parent index trees).map (fun node => (node.label, node.span)) =
      entriesIn trees := by
  cases trees with
  | nil => rfl
  | cons tree trees => rw [layouts, List.map_append, map_layout, map_layouts, entriesIn]

end

theorem entriesIn_append (front back : List Tree) :
    entriesIn (front ++ back) = entriesIn front ++ entriesIn back := by
  induction front with
  | nil => rfl
  | cons tree front ih => rw [List.cons_append, entriesIn, ih, entriesIn, List.append_assoc]

end Tree

/-- Settles the reference of a node when it is one. -/
def GroupTable.settle (table : GroupTable) (node : Node) : Node :=
  { node with label := table.resolve node.label }

/-- The node of a settled pattern where the root of a tree lies. -/
theorem Tree.node?_of_lies {pattern : Pattern} {table : GroupTable} {nodes : List Node}
    (hnodes : pattern.nodes.toList = nodes.map table.settle) {first : Nat}
    {attachment : Option Attachment} {label : Label} {span : Span} {children : List Tree}
    (hlies : Lies nodes first ((node label span children).layout first attachment)) :
    pattern.node? (first + sizes children) =
      some ⟨table.resolve label, span, attachment, slots first 0 children⟩ := by
  rw [Pattern.node?, ← Array.getElem?_toList, hnodes, List.getElem?_map, root_of_lies hlies]
  rfl

namespace Pattern

variable (source : String) (tree : Tree)

/-- The groups of a tree that has been numbered. -/
def groupsOf (tree : Tree) : GroupTable :=
  .ofNodes (tree.layout 0 none)

theorem nodes_ofTree :
    (ofTree source tree).nodes.toList = (tree.layout 0 none).map (groupsOf tree).settle := rfl

theorem root_ofTree : (ofTree source tree).root = tree.size - 1 := by
  have hlength := tree.length_layout 0 none
  simp [ofTree, hlength]

theorem size_nodes_ofTree : (ofTree source tree).nodes.size = tree.size := by
  have hlength := tree.length_layout 0 none
  simp [ofTree, hlength]

theorem source_ofTree : (ofTree source tree).source = source := rfl

theorem node?_ofTree (id : Nat) :
    (ofTree source tree).node? id =
      ((tree.layout 0 none)[id]?).map (groupsOf tree).settle := by
  rw [node?, ← Array.getElem?_toList, nodes_ofTree, List.getElem?_map]

/-- Every node of a pattern is the root of a tree within the one that was numbered. -/
theorem exists_within_of_lt {id : Nat} (hid : id < (ofTree source tree).nodes.size) :
    ∃ (sub : Tree) (start : Nat) (attachment : Option Attachment),
      sub.Within tree ∧ id + 1 = start + sub.size ∧
        Lies (tree.layout 0 none) start (sub.layout start attachment) := by
  rw [size_nodes_ofTree] at hid
  exact tree.exists_within (.whole _) (Nat.zero_le id) (by omega)

end Pattern

end PatternTree
