import PatternTree.Pattern.Defect
import PatternTree.Proofs.Grammar.Parse
import PatternTree.Proofs.Walk

namespace PatternTree

namespace Pattern

/-- The walk below and including a node that comes to each node after all nodes below it, which
    it looks for in the order of the slots. Below a node that is its own descendant there is no
    such walk. -/
inductive Postorder (pattern : Pattern) : Nat → List Nat → Prop where
  | node {id : Nat} {node : Node} {walks : List (List Nat)}
      (hnode : pattern.node? id = some node)
      (hwalks : List.Forall₂ (Postorder pattern) node.children walks) :
      Postorder pattern id (walks.flatten ++ [id])

/-- The nodes of a pattern form one tree and are numbered in the order of its walk from the
    root. -/
structure Postordered (pattern : Pattern) : Prop where
  /-- The walk from the root comes to each node once and in the order of the numbers. -/
  walk : ∀ ids, pattern.Postorder pattern.root ids ↔ ids = List.range pattern.nodes.size
  /-- The root has the last number. -/
  root : pattern.root + 1 = pattern.nodes.size
  /-- Children have lower numbers than their parents. -/
  descending : ∀ id, ∀ child ∈ pattern.childrenOf id, child < id
  /-- The slots of a node are numbered from zero on. -/
  indices : ∀ id node, pattern.node? id = some node →
    node.slots.map Slot.index = List.range node.slots.length
  /-- The child at an index is the one in the slot there. -/
  child : ∀ id node, pattern.node? id = some node →
    ∀ index, node.child? index = node.slots[index]?.map Slot.child
  /-- A node hangs at an index of a parent exactly when the parent's slot there holds it. -/
  attachment : ∀ id node, pattern.node? id = some node → ∀ parent index,
    node.attachment = some ⟨parent, index⟩ ↔
      ∃ other, pattern.node? parent = some other ∧ other.slots[index]? = some ⟨index, id⟩
  /-- Only the root hangs nowhere. -/
  unattached : ∀ id node, pattern.node? id = some node →
    (node.attachment = none ↔ id = pattern.root)

variable {pattern : Pattern} {id : Nat} {ids : List Nat}

/-- A walk consists of the walks from the children and the node itself. -/
theorem postorder_iff :
    pattern.Postorder id ids ↔ ∃ node walks, pattern.node? id = some node ∧
      List.Forall₂ pattern.Postorder node.children walks ∧ ids = walks.flatten ++ [id] := by
  constructor
  · rintro ⟨hnode, hwalks⟩
    exact ⟨_, _, hnode, hwalks, rfl⟩
  · rintro ⟨node, walks, hnode, hwalks, rfl⟩
    exact .node hnode hwalks

end Pattern

namespace Tree

section

variable {pattern : Pattern} {table : GroupTable} {nodes : List Node}

mutual

/-- From the root of a tree the walk takes the numbers of the tree's nodes in their order. -/
theorem postorder_iff_of_lies (hnodes : pattern.nodes.toList = nodes.map table.settle)
    {first : Nat} {attachment : Option Attachment} (tree : Tree)
    (hlies : Lies nodes first (tree.layout first attachment)) (ids : List Nat) :
    pattern.Postorder (first + tree.size - 1) ids ↔ ids = List.range' first tree.size := by
  cases tree with
  | node label span children =>
    have hnode := node?_of_lies hnodes hlies
    have hroot : first + (sizes children + 1) - 1 = first + sizes children := by omega
    have hrange : List.range' first (sizes children + 1) =
        List.range' first (sizes children) ++ [first + sizes children] := by
      rw [List.range'_concat, Nat.one_mul]
    rw [layout] at hlies
    have hchildren := exists_walks_iff_of_lies hnodes children hlies.left
    rw [size, hroot, hrange, Pattern.postorder_iff]
    constructor
    · rintro ⟨node, walks, hnode', hwalks, rfl⟩
      obtain rfl := Option.some.inj (hnode.symm.trans hnode')
      rw [(hchildren _).mp ⟨walks, hwalks, rfl⟩]
    · rintro rfl
      obtain ⟨walks, hwalks, hflatten⟩ := (hchildren _).mpr rfl
      exact ⟨_, walks, hnode, hwalks, by rw [hflatten]⟩

theorem exists_walks_iff_of_lies (hnodes : pattern.nodes.toList = nodes.map table.settle)
    {first parent index : Nat} (trees : List Tree)
    (hlies : Lies nodes first (layouts first parent index trees)) (ids : List Nat) :
    (∃ walks, List.Forall₂ pattern.Postorder ((slots first index trees).map Slot.child) walks ∧
      walks.flatten = ids) ↔ ids = List.range' first (sizes trees) := by
  cases trees with
  | nil => simp [slots, sizes, eq_comm]
  | cons tree trees =>
    rw [layouts] at hlies
    have hothers := hlies.right
    rw [length_layout] at hothers
    have hrange : List.range' first (tree.size + sizes trees) =
        List.range' first tree.size ++ List.range' (first + tree.size) (sizes trees) := by
      rw [← List.range'_append, Nat.one_mul]
    rw [slots, List.map_cons, sizes, hrange]
    constructor
    · rintro ⟨walks, hwalks, rfl⟩
      cases hwalks with
      | @cons _ walk _ others hwalk hwalks =>
        rw [List.flatten_cons, (postorder_iff_of_lies hnodes tree hlies.left _).mp hwalk,
          (exists_walks_iff_of_lies hnodes trees hothers _).mp ⟨others, hwalks, rfl⟩]
    · rintro rfl
      have hwalk := (postorder_iff_of_lies hnodes tree hlies.left _).mpr rfl
      obtain ⟨others, hwalks, hflatten⟩ :=
        (exists_walks_iff_of_lies hnodes trees hothers _).mpr rfl
      exact ⟨_ :: others, .cons hwalk hwalks, by rw [List.flatten_cons, hflatten]⟩

end

end

section

variable {nodes : List Node}

/-- The child in a slot has its nodes among those of the children, and knows the slot. -/
theorem lies_of_mem_slots {first parent index : Nat} {trees : List Tree}
    (hlies : Lies nodes first (layouts first parent index trees)) {place : Nat} {slot : Slot}
    (hslot : (slots first index trees)[place]? = some slot) :
    slot.index = index + place ∧ slot.child < first + sizes trees ∧
      ∃ node, nodes[slot.child]? = some node ∧
        node.attachment = some ⟨parent, index + place⟩ := by
  induction trees generalizing first index place with
  | nil => cases hslot
  | cons tree trees ih =>
    rw [layouts] at hlies
    rw [sizes]
    have hpos := tree.size_pos
    cases place with
    | zero =>
      obtain rfl : ⟨index, first + tree.size - 1⟩ = slot := by simpa [slots] using hslot
      refine ⟨rfl, by simp only; omega, ?_⟩
      cases tree with
      | node label span children =>
        have hroot : first + (node label span children).size - 1 = first + sizes children := by
          rw [size]
          omega
        exact ⟨_, by rw [hroot]; exact root_of_lies hlies.left, rfl⟩
    | succ place =>
      have hothers := hlies.right
      rw [length_layout] at hothers
      obtain ⟨hindex, hchild, node, hnode, hattachment⟩ := ih hothers (by simpa [slots] using hslot)
      refine ⟨by omega, by omega, node, hnode, ?_⟩
      rw [hattachment, Nat.add_assoc, Nat.add_comm 1]

mutual

/-- Every node of a tree but the root hangs in a slot of another one. -/
theorem exists_slot_of_lies {first id : Nat} {attachment : Option Attachment} (tree : Tree)
    (hlies : Lies nodes first (tree.layout first attachment)) (hfirst : first ≤ id)
    (hid : id + 1 < first + tree.size) :
    ∃ node other parent index, nodes[id]? = some node ∧
      node.attachment = some ⟨parent, index⟩ ∧ nodes[parent]? = some other ∧
      other.slots[index]? = some ⟨index, id⟩ := by
  cases tree with
  | node label span children =>
    have hroot := root_of_lies hlies
    rw [size] at hid
    rw [layout] at hlies
    obtain hinner | ⟨node, place, hnode, hattachment, hslot⟩ :=
      exists_slot_of_mem children hlies.left hfirst (by omega)
    · exact hinner
    · exact ⟨node, _, _, _, hnode, hattachment, hroot, by simpa using hslot⟩

theorem exists_slot_of_mem {first parent index id : Nat} (trees : List Tree)
    (hlies : Lies nodes first (layouts first parent index trees)) (hfirst : first ≤ id)
    (hid : id < first + sizes trees) :
    (∃ node other parent index, nodes[id]? = some node ∧
      node.attachment = some ⟨parent, index⟩ ∧ nodes[parent]? = some other ∧
      other.slots[index]? = some ⟨index, id⟩) ∨
    ∃ node place, nodes[id]? = some node ∧ node.attachment = some ⟨parent, index + place⟩ ∧
      (slots first index trees)[place]? = some ⟨index + place, id⟩ := by
  cases trees with
  | nil =>
    rw [sizes] at hid
    omega
  | cons tree trees =>
    have hslots := @lies_of_mem_slots _ _ _ _ _ hlies 0
    rw [sizes] at hid
    rw [layouts] at hlies
    by_cases hinner : id + 1 < first + tree.size
    · exact .inl (exists_slot_of_lies tree hlies.left hfirst hinner)
    · by_cases hlast : id + 1 = first + tree.size
      · obtain rfl : id = first + tree.size - 1 := by omega
        obtain ⟨-, -, node, hnode, hattachment⟩ := hslots rfl
        exact .inr ⟨node, 0, hnode, hattachment, rfl⟩
      · have hothers := hlies.right
        rw [length_layout] at hothers
        have hid' : first + tree.size ≤ id := by omega
        obtain hinner | ⟨node, place, hnode, hattachment, hslot⟩ :=
          exists_slot_of_mem trees hothers hid' (by omega)
        · exact .inl hinner
        · refine .inr ⟨node, place + 1, hnode, ?_, ?_⟩
          · rw [hattachment, Nat.add_assoc, Nat.add_comm 1]
          · rw [slots, List.getElem?_cons_succ, hslot, Nat.add_assoc, Nat.add_comm 1]

end

end

end Tree

namespace Node

variable {node : Node}

section

variable (hindices : node.slots.map Slot.index = List.range node.slots.length)

include hindices

/-- Where indices count the slots, the slot at a place has the place as its index. -/
theorem index_eq_of_getElem? {place : Nat} {slot : Slot} (hslot : node.slots[place]? = some slot) :
    slot.index = place := by
  have hplace : place < node.slots.length := (List.getElem?_eq_some_iff.mp hslot).1
  have hindex := congrArg (·[place]?) hindices
  simp only [List.getElem?_map, hslot, Option.map_some, List.getElem?_range hplace] at hindex
  exact Option.some.inj hindex

theorem getElem?_index {slot : Slot} (hslot : slot ∈ node.slots) :
    node.slots[slot.index]? = some slot := by
  obtain ⟨place, hplace⟩ := List.mem_iff_getElem?.mp hslot
  rwa [index_eq_of_getElem? hindices hplace]

/-- Where indices count the slots, a child is looked up at its place. -/
theorem child?_eq_of_indices (index : Nat) :
    node.child? index = node.slots[index]?.map Slot.child := by
  rw [child?]
  congr 1
  cases hslot : node.slots[index]? with
  | none =>
    rw [List.find?_eq_none]
    intro slot hmem hindex
    rw [← eq_of_beq hindex, getElem?_index hindices hmem] at hslot
    cases hslot
  | some slot =>
    obtain ⟨found, hfound⟩ : ∃ found, node.slots.find? (·.index == index) = some found := by
      rw [← Option.isSome_iff_exists, List.find?_isSome]
      exact ⟨slot, List.mem_of_getElem? hslot,
        beq_iff_eq.mpr (index_eq_of_getElem? hindices hslot)⟩
    have hindex := List.find?_some hfound
    rw [beq_iff_eq] at hindex
    rw [hfound, ← hslot, ← hindex, getElem?_index hindices (List.mem_of_find?_eq_some hfound)]

/-- Where indices count the slots, no two slots share one. -/
theorem conflicting?_eq_none_of_indices (index : Nat) : node.conflicting? index = none := by
  rw [conflicting?, child?_eq_of_indices hindices]
  cases hslot : node.slots[index]? with
  | none => rfl
  | some slot =>
    rw [Option.map_some, Option.bind_some, Option.map_eq_none_iff, List.find?_eq_none]
    intro other hother hconflict
    obtain ⟨hindex, hchild⟩ := Bool.and_eq_true_iff.mp hconflict
    have hother' := getElem?_index hindices hother
    rw [eq_of_beq hindex, hslot] at hother'
    rw [Option.some.inj hother'] at hchild
    simp at hchild

/-- Where indices count the slots, every index but zero has another one before it. -/
theorem followsGap_eq_false_of_indices {index : Nat} (hindex : index ∈ node.indices) :
    node.followsGap index = false := by
  obtain ⟨slot, hslot, rfl⟩ := mem_indices.mp hindex
  have hlast := (List.getElem?_eq_some_iff.mp (getElem?_index hindices hslot)).1
  have hbefore : slot.index - 1 < node.slots.length := by omega
  rw [followsGap, child?_eq_of_indices hindices]
  simp [hbefore]

end

end Node

namespace Pattern

/-- A pattern that is one tree in the order of its walk has no defects. -/
theorem Postordered.defects_eq_nil {pattern : Pattern} (hpattern : pattern.Postordered) :
    pattern.defects = [] := by
  have hnumbered : ∀ entry ∈ pattern.numberedNodes,
      entry.1.slots.map Slot.index = List.range entry.1.slots.length := by
    rintro ⟨node, id⟩ hentry
    have hnode := (List.mem_zipIdx_iff_getElem?.mp hentry)
    rw [Array.getElem?_toList] at hnode
    exact hpattern.indices id node hnode
  have hunique : pattern.nonUniqueChildren = [] := by
    rw [nonUniqueChildren, List.flatMap_eq_nil_iff]
    intro entry hentry
    rw [List.filterMap_eq_nil_iff]
    intro index _
    rw [Node.conflicting?_eq_none_of_indices (hnumbered entry hentry), Option.map_none]
  have hacyclic : pattern.cyclicNodes = [] := by
    rw [cyclicNodes, List.map_eq_nil_iff, List.filter_eq_nil_iff]
    intro id _ hcyclic
    obtain ⟨visit, hvisit, hnode⟩ := List.any_eq_true.mp hcyclic
    -- The walk below a node only comes to lower numbers.
    have hbelow := reached_of_mem_visits (· < id)
      (fun parent hparent child hchild =>
        Nat.lt_trans (hpattern.descending parent child hchild) hparent)
      (hpattern.descending id) 0 visit hvisit
    rw [eq_of_beq hnode] at hbelow
    exact Nat.lt_irrefl id hbelow
  have hconsecutive : pattern.nonConsecutiveIndices = [] := by
    rw [nonConsecutiveIndices, List.flatMap_eq_nil_iff]
    intro entry hentry
    rw [List.map_eq_nil_iff, List.filter_eq_nil_iff]
    intro index hindex
    rw [Node.followsGap_eq_false_of_indices (hnumbered entry hentry) hindex]
    exact Bool.false_ne_true
  rw [defects, hunique, hacyclic, hconsecutive]
  rfl

section

variable {source : String} {tree : Tree} {id : Nat} {node : Node}

/-- The children of a node lie before it, and its slots are theirs. -/
theorem exists_children_of_node (hnode : (ofTree source tree).node? id = some node) :
    ∃ first children, id = first + Tree.sizes children ∧
      node.slots = Tree.slots first 0 children ∧
      Lies (tree.layout 0 none) first (Tree.layouts first id 0 children) := by
  obtain ⟨⟨label, span, children⟩, first, attachment, -, hid, hlies⟩ :=
    exists_within_of_lt source tree (Array.getElem?_eq_some_iff.mp hnode).1
  rw [Tree.size] at hid
  obtain rfl : id = first + Tree.sizes children := by omega
  have hroot := Tree.node?_of_lies (nodes_ofTree source tree) hlies
  rw [Tree.layout] at hlies
  obtain rfl := Option.some.inj (hnode.symm.trans hroot)
  exact ⟨first, children, rfl, rfl, hlies.left⟩

theorem indices_of_node (hnode : (ofTree source tree).node? id = some node) :
    node.slots.map Slot.index = List.range node.slots.length := by
  obtain ⟨first, children, -, hslots, -⟩ := exists_children_of_node hnode
  have hcount := congrArg List.length (Tree.index_slots first 0 children)
  rw [List.length_map, List.length_range'] at hcount
  rw [hslots, Tree.index_slots, List.range_eq_range', hcount]

/-- The child in a slot stands before the node and knows the slot. -/
theorem attachment_of_slot (hnode : (ofTree source tree).node? id = some node) {index : Nat}
    {slot : Slot} (hslot : node.slots[index]? = some slot) :
    slot.child < id ∧ ∃ child, (ofTree source tree).node? slot.child = some child ∧
      child.attachment = some ⟨id, index⟩ := by
  obtain ⟨first, children, rfl, hslots, hlies⟩ := exists_children_of_node hnode
  rw [hslots] at hslot
  obtain ⟨-, hchild, child, hchild', hattachment⟩ := Tree.lies_of_mem_slots hlies hslot
  refine ⟨hchild, _, by rw [node?_ofTree, hchild', Option.map_some], ?_⟩
  rw [← Nat.zero_add index]
  exact hattachment

/-- Every node but the last one hangs in a slot of another one. -/
theorem exists_slot_of_ne_root (hnode : (ofTree source tree).node? id = some node)
    (hid : id ≠ (ofTree source tree).root) :
    ∃ parent index other, node.attachment = some ⟨parent, index⟩ ∧
      (ofTree source tree).node? parent = some other ∧
      other.slots[index]? = some ⟨index, id⟩ := by
  have hlast := (Array.getElem?_eq_some_iff.mp hnode).1
  rw [size_nodes_ofTree] at hlast
  rw [root_ofTree] at hid
  obtain ⟨inner, other, parent, index, hinner, hattachment, hother, hslot⟩ :=
    Tree.exists_slot_of_lies tree (.whole _) (Nat.zero_le id) (by omega)
  rw [node?_ofTree, hinner, Option.map_some] at hnode
  obtain rfl := Option.some.inj hnode
  have hother' : (ofTree source tree).node? parent = some ((groupsOf tree).settle other) := by
    rw [node?_ofTree, hother, Option.map_some]
  exact ⟨parent, index, _, hattachment, hother', hslot⟩

theorem attachment_root (hnode : (ofTree source tree).node? (ofTree source tree).root = some node) :
    node.attachment = none := by
  obtain ⟨label, span, children⟩ := tree
  have hroot := Tree.node?_of_lies (nodes_ofTree source (.node label span children)) (.whole _)
  rw [root_ofTree, Tree.size, Nat.add_sub_cancel, ← Nat.zero_add (Tree.sizes children), hroot]
    at hnode
  obtain rfl := Option.some.inj hnode
  rfl

/-- A tree that is numbered becomes one tree in the order of its walk. -/
theorem postordered_ofTree (source : String) (tree : Tree) :
    (ofTree source tree).Postordered where
  walk ids := by
    have hwalk := tree.postorder_iff_of_lies (nodes_ofTree source tree) (.whole _) ids
    rwa [Nat.zero_add, ← List.range_eq_range', ← root_ofTree source,
      ← size_nodes_ofTree source] at hwalk
  root := by
    have hpos := tree.size_pos
    rw [root_ofTree, size_nodes_ofTree]
    omega
  descending id child hchild := by
    cases hnode : (ofTree source tree).node? id with
    | none => simp [childrenOf, hnode] at hchild
    | some node =>
      rw [childrenOf, hnode, Option.map_some, Option.getD_some] at hchild
      obtain ⟨slot, hslot, rfl⟩ := List.mem_map.mp hchild
      obtain ⟨place, hplace⟩ := List.mem_iff_getElem?.mp hslot
      exact (attachment_of_slot hnode hplace).1
  indices id node hnode := indices_of_node hnode
  child id node hnode := Node.child?_eq_of_indices (indices_of_node hnode)
  attachment id node hnode parent index := by
    constructor
    · intro hattachment
      have hid : id ≠ (ofTree source tree).root := by
        rintro rfl
        rw [attachment_root hnode] at hattachment
        cases hattachment
      obtain ⟨_, _, other, hattachment', hother, hslot⟩ := exists_slot_of_ne_root hnode hid
      rw [hattachment] at hattachment'
      cases hattachment'
      exact ⟨other, hother, hslot⟩
    · rintro ⟨other, hother, hslot⟩
      obtain ⟨-, child, hchild, hattachment⟩ := attachment_of_slot hother hslot
      rwa [Option.some.inj (hnode.symm.trans hchild)]
  unattached id node hnode := by
    constructor
    · intro hattachment
      by_contra hid
      obtain ⟨_, _, _, hattachment', -⟩ := exists_slot_of_ne_root hnode hid
      rw [hattachment] at hattachment'
      cases hattachment'
    · rintro rfl
      exact attachment_root hnode

end

variable {dialect : Dialect} {source : String} {pattern : Pattern}

/-- What is read is one tree whose nodes are numbered in the order of its walk, in which parents
    and children know each other, and so it has no defects. -/
theorem parse_postordered (hparse : parse dialect source = .ok pattern) :
    pattern.Postordered ∧ pattern.defects = [] := by
  obtain ⟨choice, -, rfl⟩ := parse_eq_ok_iff.mp hparse
  have hpattern := postordered_ofTree source (choice.tree 0 0)
  exact ⟨hpattern, hpattern.defects_eq_nil⟩

/-- Both groups wait for others until the pattern ends, and the walk still comes to them in the
    order of their numbers. -/
theorem parse_postordered_open_groups :
    ∃ pattern, parse {} "a(b(|c)*d)|" = .ok pattern ∧
      pattern.Postorder pattern.root (List.range 13) ∧ pattern.defects = [] := by
  obtain ⟨pattern, hparse⟩ := exists_parse_eq_ok {} "a(b(|c)*d)|" (by decide +kernel)
  have hsize : (parse {} "a(b(|c)*d)|").toOption.map (·.nodes.size) = some 13 := by
    decide +kernel
  rw [hparse] at hsize
  obtain ⟨hpattern, hdefects⟩ := parse_postordered hparse
  have hsize' : pattern.nodes.size = 13 := Option.some.inj hsize
  exact ⟨pattern, hparse, (hpattern.walk _).mpr (by rw [hsize']), hdefects⟩

end Pattern

end PatternTree
