import PatternTree.Proofs.Grammar.Gaps
import PatternTree.Proofs.Grammar.Openings
import PatternTree.Proofs.Shift
import PatternTree.Proofs.Walk

namespace PatternTree

namespace Tree

section

variable {pattern : Pattern} {table : GroupTable} {nodes : List Node} {other : Nat}

mutual

/-- The root of a tree reaches exactly the nodes of the tree. -/
theorem reaches_iff_of_lies (hnodes : pattern.nodes.toList = nodes.map table.settle) {first : Nat}
    {attachment : Option Attachment} (tree : Tree)
    (hlies : Lies nodes first (tree.layout first attachment)) :
    pattern.Reaches (first + tree.size - 1) other ↔ first ≤ other ∧ other < first + tree.size := by
  cases tree with
  | node label span children =>
    have hchildren : pattern.childrenOf (first + sizes children) =
        (slots first 0 children).map Slot.child := by
      rw [Pattern.childrenOf, node?_of_lies hnodes hlies]
      rfl
    have hroot : first + (sizes children + 1) - 1 = first + sizes children := by omega
    rw [layout] at hlies
    rw [size, hroot, Pattern.reaches_iff, hchildren,
      exists_reaches_iff_of_lies hnodes children hlies.left]
    omega

theorem exists_reaches_iff_of_lies (hnodes : pattern.nodes.toList = nodes.map table.settle)
    {first parent index : Nat} (trees : List Tree)
    (hlies : Lies nodes first (layouts first parent index trees)) :
    (∃ child ∈ (slots first index trees).map Slot.child, pattern.Reaches child other) ↔
      first ≤ other ∧ other < first + sizes trees := by
  cases trees with
  | nil =>
    have hnone : ¬ (first ≤ other ∧ other < first + sizes []) := by
      rw [sizes]
      omega
    simp [slots, hnone]
  | cons tree trees =>
    rw [layouts] at hlies
    have hothers := hlies.right
    rw [length_layout] at hothers
    rw [slots, List.map_cons, List.exists_mem_cons_iff, reaches_iff_of_lies hnodes tree hlies.left,
      exists_reaches_iff_of_lies hnodes trees hothers, sizes]
    omega

end

end

/-- Where a moved tree lies, each node is the moved one, and the root hangs where the tree is
    attached. -/
theorem getElem?_of_lies_shift {nodes : List Node} {first offset numbered : Nat}
    {attachment : Option Attachment} {tree : Tree}
    (hlies : Lies nodes first ((tree.shift offset numbered).layout first attachment))
    {index : Nat} {node : Node} (hnode : (tree.layout 0 none)[index]? = some node) :
    nodes[first + index]? = some
      (if index + 1 = tree.size then { node.shift first offset numbered with attachment }
        else node.shift first offset numbered) := by
  have hindex : index < ((tree.shift offset numbered).layout first attachment).length := by
    rw [length_layout, size_shift, ← tree.length_layout 0 none]
    exact (List.getElem?_eq_some_iff.mp hnode).1
  have hmoved := tree.layout_shift offset numbered first 0 none
  rw [Nat.add_zero, Option.map_none] at hmoved
  rw [hlies.getElem? hindex, getElem?_layout, hmoved, List.getElem?_map, hnode, size_shift]
  rfl

end Tree

/-- A node is another one behind a number of other nodes, bytes and groups, apart from what is
    known of references and from the parent. -/
structure Node.Moves (first offset numbered : Nat) (node moved : Node) : Prop where
  label : moved.label.unsettled = node.label.unsettled.shift numbered
  span : moved.span = node.span.shift offset
  slots : moved.slots = node.slots.map (Slot.shift first)

namespace Pattern

variable {dialect : Dialect} {source : String} {pattern : Pattern}

/-- At every node of a pattern lies the moved tree of a part of its derivation. -/
theorem exists_part_of_node {choice : Choice} {id : Nat} {node : Node}
    (hnode : (ofTree source (choice.tree 0 0)).node? id = some node) :
    ∃ front inner back first attachment,
      choice.lexemes = front ++ (Choice.lexemes inner ++ back) ∧
      id + 1 = first + (inner.tree 0 0).size ∧
      Lies ((choice.tree 0 0).layout 0 none) first
        (((inner.tree 0 0).shift (Lexeme.size front) (Lexeme.numbered front)).layout first
          attachment) ∧
      node.span = ⟨Lexeme.size front, Lexeme.size front + Lexeme.size inner.lexemes⟩ := by
  have hid : id < (ofTree source (choice.tree 0 0)).nodes.size :=
    (Array.getElem?_eq_some_iff.mp hnode).1
  obtain ⟨sub, first, attachment, hsub, hfirst, hlies⟩ := exists_within_of_lt source _ hid
  obtain ⟨front, inner, back, hlexemes, rfl⟩ := Choice.exists_of_within hsub
  have hspan := (Tree.stands_of_lies (nodes_ofTree source (choice.tree 0 0)) _ hlies).span_eq
  rw [← hfirst, Nat.add_sub_cancel, hnode, Option.map_some, inner.span_tree, Nat.zero_add] at hspan
  have hmoved : inner.tree (0 + Lexeme.size front) (0 + Lexeme.numbered front) =
      (inner.tree 0 0).shift (Lexeme.size front) (Lexeme.numbered front) := by
    rw [← Choice.tree_shift, Nat.zero_add, Nat.zero_add, Nat.add_zero, Nat.add_zero]
  rw [hmoved] at hlies hfirst
  rw [Tree.size_shift] at hfirst
  exact ⟨front, inner, back, first, attachment, hlexemes, hfirst, hlies, Option.some.inj hspan⟩

/-- The text of a node is a pattern itself. Its nodes are those that the node reaches, which end
    with the node, and they have the labels, the spans and the children that they have in the whole
    pattern when nodes, bytes and numbers of groups are counted from where the text starts. -/
theorem parse_text (hparse : parse dialect source = .ok pattern) {id : Nat} {node : Node}
    (hnode : pattern.node? id = some node) :
    ∃ text part first, pattern.text? id = some text ∧ parse dialect text = .ok part ∧
      first + part.nodes.size = id + 1 ∧ first + part.root = id ∧
      (∀ other, pattern.Reaches id other ↔ first ≤ other ∧ other ≤ id) ∧
      ∀ index inner, part.node? index = some inner →
        ∃ outer, pattern.node? (first + index) = some outer ∧
          inner.Moves first node.span.start (pattern.openedBefore node.span.start) outer ∧
          (index ≠ part.root →
            outer.attachment = inner.attachment.map (Attachment.shift first)) := by
  obtain ⟨choice, hderives, rfl⟩ := parse_eq_ok_iff.mp hparse
  obtain ⟨front, inner, back, first, attachment, hlexemes, hid, hlies, hspan⟩ :=
    exists_part_of_node hnode
  have hpos := (inner.tree 0 0).size_pos
  have hopened := openedBefore_ofTree hderives hlexemes
  have hpart := hderives.of_infix hlexemes
  have hcovers : Text.Covers source.toList node.span (Lexeme.textOf inner.lexemes) := by
    rw [hspan]
    exact Choice.covers_textOf (by rw [← hlexemes, hderives.text])
  rw [← String.toList_ofList (l := Lexeme.textOf inner.lexemes)] at hpart
  refine ⟨_, _, first, ?_, parse_eq_ok_iff.mpr ⟨inner, hpart, rfl⟩, ?_, ?_, ?_, ?_⟩
  · rw [text?, hnode, Option.bind_some, source_ofTree, hcovers.slice?_eq, Option.map_some]
  · rw [size_nodes_ofTree, hid]
  · rw [root_ofTree]
    omega
  · intro other
    have hreaches : (ofTree source (choice.tree 0 0)).Reaches _ other ↔ _ :=
      Tree.reaches_iff_of_lies (nodes_ofTree source (choice.tree 0 0)) _ hlies
    rw [Tree.size_shift, ← hid, Nat.add_sub_cancel] at hreaches
    rw [hreaches, Nat.lt_succ_iff]
  · intro index found hfound
    rw [node?_ofTree, Option.map_eq_some_iff] at hfound
    obtain ⟨inside, hinside, rfl⟩ := hfound
    have houter := Tree.getElem?_of_lies_shift hlies hinside
    rw [node?_ofTree, houter, Option.map_some, root_ofTree, hspan]
    refine ⟨_, rfl, ⟨?_, ?_, ?_⟩, ?_⟩
    · rw [hopened]
      split <;> simp [GroupTable.settle, Node.shift, Label.unsettled_shift]
    · split <;> rfl
    · split <;> rfl
    · intro hroot
      rw [if_neg (by omega)]
      rfl

/-- The second group is the first one of its own text, and the name that it refers to is not
    declared there. -/
theorem parse_text_second_group :
    ∃ pattern part first, parse {} "(?<x>a)(b\\k<x>)" = .ok pattern ∧
      pattern.text? 5 = some "(b\\k<x>)" ∧ parse {} "(b\\k<x>)" = .ok part ∧
      first + part.nodes.size = 6 ∧
      ∀ index inner, part.node? index = some inner →
        ∃ outer, pattern.node? (first + index) = some outer ∧ inner.Moves first 7 1 outer := by
  obtain ⟨pattern, hparse⟩ := exists_parse_eq_ok {} "(?<x>a)(b\\k<x>)" (by decide +kernel)
  have hspan : ((parse {} "(?<x>a)(b\\k<x>)").toOption.bind (node? 5)).map Node.span =
      some ⟨7, 15⟩ := by decide +kernel
  have htext : (parse {} "(?<x>a)(b\\k<x>)").toOption.bind (text? 5) = some "(b\\k<x>)" := by
    decide +kernel
  have hopened : (parse {} "(?<x>a)(b\\k<x>)").toOption.map (openedBefore 7) = some 1 := by
    decide +kernel
  rw [hparse] at hspan htext hopened
  obtain ⟨node, hnode, hspan⟩ := Option.map_eq_some_iff.mp hspan
  obtain ⟨text, part, first, htext', hpart, hsize, -, -, hnodes⟩ := parse_text hparse hnode
  obtain rfl : text = "(b\\k<x>)" := Option.some.inj (htext'.symm.trans htext)
  refine ⟨pattern, part, first, hparse, htext', hpart, hsize, ?_⟩
  intro index inner hinner
  obtain ⟨outer, houter, hmoves, -⟩ := hnodes index inner hinner
  rw [hspan, Option.some.inj hopened] at hmoves
  exact ⟨outer, houter, hmoves⟩

end Pattern

end PatternTree
