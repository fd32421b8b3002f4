import PatternTree.Proofs.Grammar.Fragment

namespace PatternTree

/-- Whether a node with a label is a group that has a number. -/
def Label.isNumbered : Label → Bool
  | group opened => opened.isCapturing
  | _ => false

/-- Whether a node is a group with a number that starts before an offset. -/
def Node.opensBefore (limit : Nat) (node : Node) : Bool :=
  node.label.isNumbered && node.span.start < limit

/-- How many groups with a number start before an offset. -/
def Pattern.openedBefore (limit : Nat) (pattern : Pattern) : Nat :=
  pattern.nodes.toList.countP (Node.opensBefore limit)

/-- Whether a token opens a group with a number before an offset. -/
def Token.opensBefore (limit : Nat) (token : Token) : Bool :=
  token.role.isNumbered && token.span.start < limit

theorem GroupTable.opensBefore_settle (table : GroupTable) (limit : Nat) (node : Node) :
    (table.settle node).opensBefore limit = node.opensBefore limit := by
  obtain ⟨label, span, attachment, slots⟩ := node
  cases label <;> rfl

namespace Lexeme

/-- How many groups with a number lexemes at a place open before an offset. -/
def opened (limit offset : Nat) (lexemes : List Lexeme) : Nat :=
  (place offset lexemes).countP (Token.opensBefore limit)

variable (limit offset : Nat)

@[simp] theorem opened_nil : opened limit offset [] = 0 := rfl

@[simp] theorem opened_cons (lexeme : Lexeme) (lexemes : List Lexeme) :
    opened limit offset (lexeme :: lexemes) =
      (if lexeme.role.isNumbered && offset < limit then 1 else 0) +
        opened limit (offset + Text.utf8Size lexeme.text) lexemes := by
  simp [opened, place, List.countP_cons, Token.opensBefore, token, Nat.add_comm]

@[simp] theorem opened_append (front back : List Lexeme) :
    opened limit offset (front ++ back) =
      opened limit offset front + opened limit (offset + size front) back := by
  simp [opened, place_append]

theorem opened_eq_zero_of_le {limit offset : Nat} (hlimit : limit ≤ offset)
    (lexemes : List Lexeme) : opened limit offset lexemes = 0 := by
  induction lexemes generalizing offset with
  | nil => rfl
  | cons lexeme lexemes ih =>
    have hstart : ¬ offset < limit := by omega
    simp [hstart, ih (by omega : limit ≤ offset + Text.utf8Size lexeme.text)]

/-- Lexemes that end before an offset open all their groups there. -/
theorem Reads.opened_eq {classSyntax : ClassSyntax} {rest : List Char} {lexemes : List Lexeme}
    (hreads : Reads classSyntax rest lexemes) {limit offset : Nat}
    (hlimit : offset + size lexemes ≤ limit) : opened limit offset lexemes = numbered lexemes := by
  induction hreads generalizing offset with
  | nil => rfl
  | @cons role char chars lexemes _ _ ih =>
    have hpos := char.utf8Size_pos
    rw [size_cons, Text.utf8Size] at hlimit
    have hstart : offset < limit := by omega
    rw [opened_cons, numbered_cons, ih (by rw [Text.utf8Size]; omega)]
    simp [hstart]

end Lexeme

namespace Tree

mutual

/-- How many groups of a tree have a number and start before an offset. -/
def opened (limit : Nat) : Tree → Nat
  | node label span children =>
    (if label.isNumbered && span.start < limit then 1 else 0) + openedIn limit children

/-- How many groups of several trees have a number and start before an offset. -/
def openedIn (limit : Nat) : List Tree → Nat
  | [] => 0
  | tree :: trees => tree.opened limit + openedIn limit trees

end

mutual

/-- The groups of a tree are those among its nodes. -/
theorem countP_layout (limit first : Nat) (attachment : Option Attachment) (tree : Tree) :
    (tree.layout first attachment).countP (Node.opensBefore limit) = tree.opened limit := by
  cases tree with
  | node label span children =>
    rw [layout, List.countP_append, countP_layouts, opened, Nat.add_comm]
    simp [Node.opensBefore, List.countP_cons]

theorem countP_layouts (limit first parent index : Nat) (trees : List Tree) :
    (layouts first parent index trees).countP (Node.opensBefore limit) = openedIn limit trees := by
  cases trees with
  | nil => rfl
  | cons tree trees => rw [layouts, List.countP_append, countP_layout, countP_layouts, openedIn]

end

variable (limit : Nat)

theorem openedIn_append (front back : List Tree) :
    openedIn limit (front ++ back) = openedIn limit front + openedIn limit back := by
  induction front with
  | nil => simp [openedIn]
  | cons tree front ih => simp [openedIn, ih, Nat.add_assoc]

theorem opened_sequence (place : Nat) (items : List Tree) :
    (sequence place items).opened limit = openedIn limit items := by
  match items with
  | [] => rfl
  | [item] => rfl
  | first :: second :: others => simp [sequence, opened, Label.isNumbered]

theorem opened_choice (place : Nat) (branches : List Tree) :
    (choice place branches).opened limit = openedIn limit branches := by
  match branches with
  | [] => rfl
  | [branch] => rfl
  | first :: second :: others => simp [choice, opened, Label.isNumbered]

end Tree

namespace Phrase

variable (limit : Nat)

theorem opened_tree_suffixItem (suffix : Option Suffix) (atom : Tree) :
    (suffixItem suffix atom).tree.opened limit = atom.opened limit := by
  cases suffix with
  | none => rfl
  | some suffix =>
    simp [suffixItem, Item.tree, Tree.opened, Tree.openedIn, Label.isNumbered]

theorem opened_suffixLexemes (offset : Nat) (suffix : Option Suffix) :
    Lexeme.opened limit offset (suffixLexemes suffix) = 0 := by
  cases suffix with
  | none => rfl
  | some suffix =>
    cases hlazy : suffix.isLazy <;> simp [suffixLexemes, hlazy, lazyMark, TokenRole.isNumbered]

theorem isNumbered_label_group (opener : Opener) (number : Nat) :
    (Label.group (opener.group number)).isNumbered = (TokenRole.opener opener).isNumbered := by
  cases opener <;> rfl

mutual

/-- An item's tree has the groups that its lexemes open. -/
theorem opened_tree (offset numbered : Nat) (phrase : Phrase) :
    (phrase.tree offset numbered).opened limit = Lexeme.opened limit offset phrase.lexemes := by
  cases phrase with
  | leaf atom text suffix =>
    rw [tree, item, opened_tree_suffixItem, lexemes, Lexeme.opened_cons, opened_suffixLexemes]
    cases atom <;> rfl
  | group opener text earlier last suffix =>
    rw [tree, item, opened_tree_suffixItem, lexemes]
    simp only [Tree.opened, Tree.openedIn, Tree.opened_choice, Tree.openedIn_append,
      Tree.opened_sequence, openedIn_earlierTrees, openedIn_items, Lexeme.opened_cons,
      Lexeme.opened_append, opened_suffixLexemes, isNumbered_label_group, isNumbered_closer,
      Bool.false_and, Bool.false_eq_true, if_false, Nat.add_zero]

theorem openedIn_items (offset numbered : Nat) (phrases : List Phrase) :
    Tree.openedIn limit ((items offset numbered phrases).map Item.tree) =
      Lexeme.opened limit offset (sequenceLexemes phrases) := by
  cases phrases with
  | nil => rfl
  | cons phrase phrases =>
    have hphrase := opened_tree offset numbered phrase
    rw [tree] at hphrase
    rw [items, List.map_cons, Tree.openedIn, hphrase, openedIn_items, sequenceLexemes,
      Lexeme.opened_append]

theorem openedIn_earlierTrees (offset numbered : Nat) (branches : List (List Phrase)) :
    Tree.openedIn limit (earlierTrees offset numbered branches) =
      Lexeme.opened limit offset (earlierLexemes branches) := by
  cases branches with
  | nil => rfl
  | cons branch branches =>
    rw [earlierTrees, Tree.openedIn, Tree.opened_sequence, openedIn_items, openedIn_earlierTrees,
      earlierLexemes, Lexeme.opened_append, Lexeme.opened_cons]
    simp

end

end Phrase

/-- The tree of a choice has the groups that its lexemes open. -/
theorem Choice.opened_tree (limit offset numbered : Nat) (choice : Choice) :
    (choice.tree offset numbered).opened limit = Lexeme.opened limit offset choice.lexemes := by
  rw [tree_eq, Tree.opened_choice, Tree.openedIn_append, Phrase.openedIn_earlierTrees, lexemes,
    Lexeme.opened_append, Tree.openedIn, Tree.opened_sequence, Phrase.openedIn_items]
  rfl

/-- The groups that start before a part of a pattern are those opened before it. -/
theorem Pattern.openedBefore_ofTree {dialect : Dialect} {source : String} {choice : Choice}
    (hderives : dialect.Derives source.toList choice) {front back : List Lexeme}
    (hlexemes : choice.lexemes = front ++ back) :
    (ofTree source (choice.tree 0 0)).openedBefore (Lexeme.size front) =
      Lexeme.numbered front := by
  have hreads := hderives.reads
  rw [hlexemes] at hreads
  have hfront := hreads.of_append_left.opened_eq (by rw [Nat.zero_add] : 0 + Lexeme.size front ≤ _)
  have hback := Lexeme.opened_eq_zero_of_le (Nat.le_refl (Lexeme.size front)) back
  rw [openedBefore, nodes_ofTree, List.countP_map]
  have hsettle : Node.opensBefore (Lexeme.size front) ∘ (groupsOf (choice.tree 0 0)).settle =
      Node.opensBefore (Lexeme.size front) := by
    funext node
    exact GroupTable.opensBefore_settle _ _ node
  rw [hsettle, Tree.countP_layout, Choice.opened_tree, hlexemes, Lexeme.opened_append, hfront,
    Nat.zero_add, hback, Nat.add_zero]

end PatternTree
