import PatternTree.Proofs.Shape

namespace PatternTree

/-- A span further to the right. -/
def Span.shift (offset : Nat) (span : Span) : Span :=
  ⟨offset + span.start, offset + span.stop⟩

/-- A label behind a number of other groups. -/
def Label.shift (numbered : Nat) : Label → Label
  | group ⟨number, name⟩ => group ⟨number.map (numbered + ·), name⟩
  | label => label

/-- An edge to a child behind a number of other nodes. -/
def Slot.shift (first : Nat) (slot : Slot) : Slot :=
  { slot with child := first + slot.child }

/-- An edge to a parent behind a number of other nodes. -/
def Attachment.shift (first : Nat) (attachment : Attachment) : Attachment :=
  { attachment with parent := first + attachment.parent }

/-- A node behind a number of other nodes, bytes and groups. -/
def Node.shift (first offset numbered : Nat) (node : Node) : Node where
  label := node.label.shift numbered
  span := node.span.shift offset
  attachment := node.attachment.map (Attachment.shift first)
  slots := node.slots.map (Slot.shift first)

/-- A node behind other bytes only stays what it is, further to the right. -/
theorem Node.shift_bytes (offset : Nat) (node : Node) :
    node.shift 0 offset 0 = { node with span := node.span.shift offset } := by
  obtain ⟨label, span, attachment, slots⟩ := node
  have hlabel : label.shift 0 = label := by
    cases label with
    | group opened => simp [Label.shift]
    | _ => rfl
  have hattachment : Attachment.shift 0 = id := by
    funext attachment
    simp [Attachment.shift]
  have hslot : Slot.shift 0 = id := by
    funext slot
    simp [Slot.shift]
  simp [shift, hlabel, hattachment, hslot]

/-- A node behind nothing stays what it is. -/
@[simp] theorem Node.shift_zero (node : Node) : node.shift 0 0 0 = node := by
  simp [shift_bytes, Span.shift]

namespace Label

variable (numbered : Nat)

@[simp] theorem shift_label (atom : Atom) : atom.label.shift numbered = atom.label := by
  cases atom <;> rfl

@[simp] theorem shift_concatenation : concatenation.shift numbered = concatenation := rfl

@[simp] theorem shift_alternation : alternation.shift numbered = alternation := rfl

@[simp] theorem shift_repetition (bounds : Bounds) (greedy : Bool) :
    (repetition bounds greedy).shift numbered = repetition bounds greedy := rfl

theorem shift_group (opener : Opener) (number : Nat) :
    (group (opener.group number)).shift numbered = group (opener.group (numbered + number)) := by
  cases opener <;> rfl

/-- What is known of references has nothing to do with groups that stand before. -/
theorem unsettled_shift (label : Label) :
    (label.shift numbered).unsettled = label.unsettled.shift numbered := by
  cases label <;> rfl

end Label

namespace Tree

mutual

/-- A tree behind a number of bytes and groups. -/
def shift (offset numbered : Nat) : Tree → Tree
  | node label span children =>
    .node (label.shift numbered) (span.shift offset) (shifts offset numbered children)

/-- Several trees behind a number of bytes and groups. -/
def shifts (offset numbered : Nat) : List Tree → List Tree
  | [] => []
  | tree :: trees => tree.shift offset numbered :: shifts offset numbered trees

end

variable (offset numbered : Nat)

theorem shifts_eq_map (trees : List Tree) :
    shifts offset numbered trees = trees.map (shift offset numbered) := by
  induction trees with
  | nil => rfl
  | cons tree trees ih => rw [shifts, ih, List.map_cons]

@[simp] theorem span_shift (tree : Tree) :
    (tree.shift offset numbered).span = tree.span.shift offset := by
  cases tree
  rfl

theorem cover_map_shift (place : Nat) (trees : List Tree) :
    cover (offset + place) (trees.map (shift offset numbered)) =
      (cover place trees).shift offset := by
  cases trees with
  | nil => rfl
  | cons first others =>
    simp only [cover, List.head?_map, List.getLast?_map, List.head?_cons,
      List.getLast?_eq_some_getLast (List.cons_ne_nil first others), Option.map_some, span_shift]
    rfl

theorem sequence_map_shift (place : Nat) (items : List Tree) :
    sequence (offset + place) (items.map (shift offset numbered)) =
      (sequence place items).shift offset numbered := by
  have hcover := cover_map_shift offset numbered place items
  match items with
  | [] => rfl
  | [_] => rfl
  | first :: second :: others =>
    simp only [List.map_cons] at hcover ⊢
    simp only [sequence, hcover, shift, shifts, shifts_eq_map, Label.shift_concatenation]

theorem choice_map_shift (place : Nat) (branches : List Tree) :
    choice (offset + place) (branches.map (shift offset numbered)) =
      (choice place branches).shift offset numbered := by
  have hcover := cover_map_shift offset numbered place branches
  match branches with
  | [] => rfl
  | [_] => rfl
  | first :: second :: others =>
    simp only [List.map_cons] at hcover ⊢
    simp only [choice, hcover, shift, shifts, shifts_eq_map, Label.shift_alternation]

mutual

@[simp] theorem size_shift (tree : Tree) : (tree.shift offset numbered).size = tree.size := by
  cases tree with
  | node label span children => rw [shift, size, size, sizes_shifts]

@[simp] theorem sizes_shifts (trees : List Tree) :
    sizes (shifts offset numbered trees) = sizes trees := by
  cases trees with
  | nil => rfl
  | cons tree trees => rw [shifts, sizes, sizes, size_shift, sizes_shifts]

end

mutual

/-- The entries of a tree that moves move in the same way. -/
theorem entries_shift (tree : Tree) : (tree.shift offset numbered).entries =
    tree.entries.map fun (label, span) => (label.shift numbered, span.shift offset) := by
  cases tree with
  | node label span children =>
    rw [shift, entries, entries, entriesIn_shifts, List.map_append, List.map_singleton]

theorem entriesIn_shifts (trees : List Tree) : entriesIn (shifts offset numbered trees) =
    (entriesIn trees).map fun (label, span) => (label.shift numbered, span.shift offset) := by
  cases trees with
  | nil => rfl
  | cons tree trees =>
    rw [shifts, entriesIn, entriesIn, entries_shift, entriesIn_shifts, List.map_append]

end

theorem slots_shifts (before first index : Nat) (trees : List Tree) :
    slots (before + first) index (shifts offset numbered trees) =
      (slots first index trees).map (Slot.shift before) := by
  induction trees generalizing first index with
  | nil => rfl
  | cons tree trees ih =>
    have hpos := tree.size_pos
    have hchild : before + first + tree.size - 1 = before + (first + tree.size - 1) := by omega
    rw [shifts, slots, slots, size_shift, Nat.add_assoc before, ih, ← Nat.add_assoc, hchild]
    rfl

mutual

/-- The nodes of a tree that moves move in the same way. -/
theorem layout_shift (before first : Nat) (attachment : Option Attachment) (tree : Tree) :
    (tree.shift offset numbered).layout (before + first)
        (attachment.map (Attachment.shift before)) =
      (tree.layout first attachment).map (Node.shift before offset numbered) := by
  cases tree with
  | node label span children =>
    rw [shift, layout, layout, sizes_shifts, Nat.add_assoc, layouts_shifts, slots_shifts,
      List.map_append]
    rfl

theorem layouts_shifts (before first parent index : Nat) (trees : List Tree) :
    layouts (before + first) (before + parent) index (shifts offset numbered trees) =
      (layouts first parent index trees).map (Node.shift before offset numbered) := by
  cases trees with
  | nil => rfl
  | cons tree trees =>
    have htree := layout_shift before first (some ⟨parent, index⟩) tree
    rw [shifts, layouts, layouts, size_shift, Nat.add_assoc, layouts_shifts, List.map_append,
      ← htree]
    rfl

end

end Tree

namespace Phrase

variable (before prior : Nat)

theorem shift_tree_suffixItem (suffix : Option Suffix) (atom : Tree) :
    (suffixItem suffix (atom.shift before prior)).tree =
      (suffixItem suffix atom).tree.shift before prior := by
  cases suffix with
  | none => rfl
  | some suffix =>
    simp only [suffixItem, Item.tree, Tree.shift, Tree.shifts, Tree.span_shift, Span.shift,
      Label.shift_repetition, Nat.add_assoc]

mutual

/-- An item makes the same tree everywhere, apart from places and numbers of groups. -/
theorem tree_shift (offset numbered : Nat) (phrase : Phrase) :
    phrase.tree (before + offset) (prior + numbered) =
      (phrase.tree offset numbered).shift before prior := by
  cases phrase with
  | leaf atom text suffix =>
    rw [tree, tree, item, item, ← shift_tree_suffixItem, Tree.leaf, Tree.leaf, Tree.shift,
      Label.shift_label, Tree.shifts, Span.shift, Nat.add_assoc]
  | group opener text earlier last suffix =>
    rw [tree, tree, item, item, ← shift_tree_suffixItem]
    simp only [Tree.shift, Tree.shifts, Label.shift_group, Span.shift, ← Tree.choice_map_shift,
      List.map_append, List.map_cons, List.map_nil, ← Tree.sequence_map_shift,
      ← map_tree_items_shift, ← earlierTrees_shift, Nat.add_assoc]

theorem map_tree_items_shift (offset numbered : Nat) (phrases : List Phrase) :
    (items (before + offset) (prior + numbered) phrases).map Item.tree =
      ((items offset numbered phrases).map Item.tree).map (Tree.shift before prior) := by
  cases phrases with
  | nil => rfl
  | cons phrase phrases =>
    have hphrase := tree_shift offset numbered phrase
    rw [tree, tree] at hphrase
    simp only [items, List.map_cons, hphrase, Nat.add_assoc, map_tree_items_shift]

theorem earlierTrees_shift (offset numbered : Nat) (branches : List (List Phrase)) :
    earlierTrees (before + offset) (prior + numbered) branches =
      (earlierTrees offset numbered branches).map (Tree.shift before prior) := by
  cases branches with
  | nil => rfl
  | cons branch branches =>
    simp only [earlierTrees, List.map_cons, map_tree_items_shift, Nat.add_assoc,
      Tree.sequence_map_shift, earlierTrees_shift]

end

end Phrase

/-- A choice makes the same tree everywhere, apart from places and numbers of groups. -/
theorem Choice.tree_shift (before prior : Nat) (choice : Choice) (offset numbered : Nat) :
    choice.tree (before + offset) (prior + numbered) =
      (choice.tree offset numbered).shift before prior := by
  simp only [tree_eq, lastStart, lastNumbered, Nat.add_assoc, Phrase.earlierTrees_shift,
    Phrase.map_tree_items_shift, Tree.sequence_map_shift, ← Tree.choice_map_shift,
    List.map_append, List.map_cons, List.map_nil]

end PatternTree
