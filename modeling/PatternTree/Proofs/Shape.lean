import Mathlib.Data.List.Forall2
import PatternTree.Proofs.Grammar.Placed
import PatternTree.Proofs.Layout

namespace PatternTree

/-- The label of a reference before groups are looked for. -/
def Label.unsettled : Label → Label
  | backreference number _ => backreference number false
  | namedBackreference name _ _ => namedBackreference name none false
  | label => label

@[simp] theorem GroupTable.unsettled_resolve (table : GroupTable) (label : Label) :
    (table.resolve label).unsettled = label.unsettled := by
  cases label <;> rfl

/-- The labels and children of the nodes below and including a node are those of a shape, apart
    from what is known of references. -/
inductive Pattern.Shows (pattern : Pattern) : Nat → Shape → Prop where
  | node {id : Nat} {node : Node} {children : List Shape}
      (hnode : pattern.node? id = some node)
      (hindices : node.slots.map Slot.index = List.range children.length)
      (hchildren : List.Forall₂ (Shows pattern) node.children children) :
      Shows pattern id (.node node.label.unsettled children)

/-- A tree stands at a node when the nodes from there on are labelled, placed and connected as
    in the tree, apart from what is known of references. -/
inductive Pattern.Stands (pattern : Pattern) : Nat → Tree → Prop where
  | node {id : Nat} {node : Node} {label : Label} {children : List Tree}
      (hnode : pattern.node? id = some node)
      (hlabel : node.label.unsettled = label.unsettled)
      (hindices : node.slots.map Slot.index = List.range children.length)
      (hchildren : List.Forall₂ (Stands pattern) node.children children) :
      Stands pattern id (.node label node.span children)

namespace Tree

theorem index_slots (first index : Nat) (trees : List Tree) :
    (slots first index trees).map Slot.index = List.range' index trees.length := by
  induction trees generalizing first index with
  | nil => rfl
  | cons tree trees ih => simp [slots, ih, List.range'_succ]

mutual

/-- Where a tree's nodes lie, the tree stands. -/
theorem stands_of_lies {pattern : Pattern} {table : GroupTable} {nodes : List Node}
    (hnodes : pattern.nodes.toList = nodes.map table.settle) {first : Nat}
    {attachment : Option Attachment} (tree : Tree)
    (hlies : Lies nodes first (tree.layout first attachment)) :
    pattern.Stands (first + tree.size - 1) tree := by
  cases tree with
  | node label span children =>
    have hnode := node?_of_lies hnodes hlies
    rw [layout] at hlies
    refine .node hnode (table.unsettled_resolve label) ?_ ?_
    · rw [index_slots, List.range_eq_range']
    · exact forall₂_stands_of_lies hnodes children hlies.left

theorem forall₂_stands_of_lies {pattern : Pattern} {table : GroupTable} {nodes : List Node}
    (hnodes : pattern.nodes.toList = nodes.map table.settle) {first parent index : Nat}
    (trees : List Tree) (hlies : Lies nodes first (layouts first parent index trees)) :
    List.Forall₂ pattern.Stands ((slots first index trees).map Slot.child) trees := by
  cases trees with
  | nil => exact .nil
  | cons tree trees =>
    rw [layouts] at hlies
    have hothers := hlies.right
    rw [length_layout] at hothers
    exact .cons (stands_of_lies hnodes tree hlies.left)
      (forall₂_stands_of_lies hnodes trees hothers)

end

mutual

/-- The labels of a tree without the places, where references are not settled. -/
def shape : Tree → Shape
  | node label _ children => .node label.unsettled (shapes children)

/-- The shapes of several trees. -/
def shapes : List Tree → List Shape
  | [] => []
  | tree :: trees => tree.shape :: shapes trees

end

theorem shapes_eq_map (trees : List Tree) : shapes trees = trees.map shape := by
  induction trees with
  | nil => rfl
  | cons tree trees ih => simp [shapes, ih]

@[simp] theorem shape_sequence (offset : Nat) (items : List Tree) :
    (sequence offset items).shape = .sequence (items.map shape) := by
  match items with
  | [] => rfl
  | [item] => rfl
  | first :: second :: others =>
    simp [sequence, Shape.sequence, shape, shapes_eq_map, Label.unsettled]

@[simp] theorem shape_choice (offset : Nat) (branches : List Tree) :
    (choice offset branches).shape = .choice (branches.map shape) := by
  match branches with
  | [] => rfl
  | [branch] => rfl
  | first :: second :: others =>
    simp [choice, Shape.choice, shape, shapes_eq_map, Label.unsettled]

end Tree

namespace Pattern

/-- The tree that was numbered stands at the root. -/
theorem stands_ofTree (source : String) (tree : Tree) :
    (ofTree source tree).Stands (ofTree source tree).root tree := by
  have hstands := tree.stands_of_lies (nodes_ofTree source tree) (.whole _)
  rwa [Nat.zero_add, ← root_ofTree source tree] at hstands

theorem Stands.span_eq {pattern : Pattern} {id : Nat} {tree : Tree}
    (hstands : pattern.Stands id tree) :
    (pattern.node? id).map Node.span = some tree.span := by
  cases hstands with
  | node hnode _ _ _ => rw [hnode, Option.map_some, Tree.span]

theorem Stands.label_eq {pattern : Pattern} {id : Nat} {tree : Tree}
    (hstands : pattern.Stands id tree) :
    (pattern.node? id).map (·.label.unsettled) = some tree.label.unsettled := by
  cases hstands with
  | node hnode hlabel _ _ => rw [hnode, Option.map_some, hlabel, Tree.label]

mutual

theorem Stands.shows {pattern : Pattern} {id : Nat} (tree : Tree)
    (hstands : pattern.Stands id tree) : pattern.Shows id tree.shape := by
  cases tree with
  | node label span children =>
    cases hstands with
    | @node _ node _ _ hnode hlabel hindices hchildren =>
      rw [Tree.shape, ← hlabel]
      refine .node hnode ?_ (forall₂_shows children hchildren)
      rw [hindices, Tree.shapes_eq_map, List.length_map]

theorem forall₂_shows {pattern : Pattern} {ids : List Nat} (trees : List Tree)
    (hstands : List.Forall₂ pattern.Stands ids trees) :
    List.Forall₂ pattern.Shows ids (Tree.shapes trees) := by
  cases trees with
  | nil =>
    cases hstands
    exact .nil
  | cons tree trees =>
    cases hstands with
    | cons htree htrees => exact .cons (Stands.shows tree htree) (forall₂_shows trees htrees)

end

end Pattern

namespace Phrase

theorem shape_tree_suffixItem (suffix : Option Suffix) (atom : Tree) :
    (suffixItem suffix atom).tree.shape = suffixShape suffix atom.shape := by
  cases suffix with
  | none => rfl
  | some suffix =>
    simp [suffixItem, suffixShape, Item.tree, Tree.shape, Tree.shapes, Label.unsettled]

mutual

/-- The tree of an item has the shape that the item has in the grammar. -/
theorem shape_tree (offset numbered : Nat) (phrase : Phrase) :
    (phrase.tree offset numbered).shape = phrase.shape numbered := by
  cases phrase with
  | leaf atom text suffix =>
    rw [tree, item, shape_tree_suffixItem, shape]
    cases atom <;> rfl
  | group opener text earlier last suffix =>
    rw [tree, item, shape_tree_suffixItem, shape]
    simp only [Tree.shape, Tree.shapes, Tree.shape_choice, Tree.shape_sequence, List.map_append,
      List.map_cons, List.map_nil, shape_items, shape_earlierTrees, List.map_map,
      Function.comp_def]
    cases opener <;> rfl

theorem shape_items (offset numbered : Nat) (phrases : List Phrase) :
    (items offset numbered phrases).map (fun item => item.tree.shape) =
      sequenceShapes numbered phrases := by
  cases phrases with
  | nil => rfl
  | cons phrase phrases =>
    rw [items, sequenceShapes, List.map_cons, shape_items, ← shape_tree offset numbered phrase,
      tree]

theorem shape_earlierTrees (offset numbered : Nat) (branches : List (List Phrase)) :
    (earlierTrees offset numbered branches).map Tree.shape =
      earlierShapes numbered branches := by
  cases branches with
  | nil => rfl
  | cons branch branches =>
    simp only [earlierTrees, earlierShapes, List.map_cons, Tree.shape_sequence, List.map_map,
      Function.comp_def, shape_items, shape_earlierTrees]

end

end Phrase

/-- The tree of a choice has the shape that the choice has in the grammar. -/
theorem Choice.shape_tree (offset numbered : Nat) (choice : Choice) :
    (choice.tree offset numbered).shape = choice.shape numbered := by
  rw [tree_eq, Tree.shape_choice, List.map_append, Phrase.shape_earlierTrees, shape]
  simp only [List.map_cons, List.map_nil, Tree.shape_sequence, List.map_map, Function.comp_def,
    Phrase.shape_items, lastNumbered]

end PatternTree
