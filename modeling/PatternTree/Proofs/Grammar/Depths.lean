import PatternTree.Proofs.Grammar.Fragment
import PatternTree.Proofs.OpenGroups

namespace PatternTree

/-- Whether a node with a label is a group. -/
def Label.isGroup : Label → Bool
  | group _ => true
  | _ => false

@[simp] theorem Label.isGroup_resolve (table : GroupTable) (label : Label) :
    (table.resolve label).isGroup = label.isGroup := by
  cases label <;> rfl

namespace TokenRole

/-- Tokens that close no more groups than were open leave open what they do not close. -/
theorem foldl_depthAfter {depth : Nat} {roles : List TokenRole}
    (hclosers : ∀ front, front <+: roles → closers front ≤ depth + openers front) :
    roles.foldl depthAfter depth + closers roles = depth + openers roles := by
  induction roles generalizing depth with
  | nil => rfl
  | cons role roles ih =>
    have hfirst := hclosers [role] (List.prefix_append [role] roles)
    have hothers := fun front hfront =>
      hclosers (role :: front) ((List.prefix_cons_inj role).mpr hfront)
    simp only [closers_cons, openers_cons, closers_nil, openers_nil, Nat.zero_add] at hfirst hothers
    have hfold : roles.foldl depthAfter (role.depthAfter depth) + closers roles =
        role.depthAfter depth + openers roles := ih fun front hfront => by
      have hfront := hothers front hfront
      cases role <;> simp [depthAfter, isOpener, isCloser] at hfirst hfront ⊢ <;> omega
    rw [List.foldl_cons, closers_cons, openers_cons]
    cases role <;> simp [depthAfter, isOpener, isCloser] at hfirst hfold ⊢ <;> omega

theorem Nested.foldl_depthAfter {limit : Nat} {roles : List TokenRole}
    (hnested : Nested limit roles) (depth : Nat) : roles.foldl depthAfter depth = depth := by
  have hbalanced := hnested.balanced
  have hfold : roles.foldl depthAfter depth + closers roles = depth + openers roles :=
    TokenRole.foldl_depthAfter fun front hfront =>
      Nat.le_trans (hnested.closers_le front hfront) (Nat.le_add_left _ _)
  omega

end TokenRole

/-- The groups that tokens open when a number of others are open before them: where each of them
    starts and how many are open there. -/
def Token.depths (depth : Nat) : List Token → List (Nat × Nat)
  | [] => []
  | token :: tokens =>
    (if token.role.isOpener then [(token.span.start, depth)] else []) ++
      depths (token.role.depthAfter depth) tokens

namespace Lexeme

/-- The groups that lexemes at a place open. -/
def depths (offset depth : Nat) (lexemes : List Lexeme) : List (Nat × Nat) :=
  Token.depths depth (place offset lexemes)

variable (offset depth : Nat)

@[simp] theorem depths_nil : depths offset depth [] = [] := rfl

@[simp] theorem depths_cons (lexeme : Lexeme) (lexemes : List Lexeme) :
    depths offset depth (lexeme :: lexemes) =
      (if lexeme.role.isOpener then [(offset, depth)] else []) ++
        depths (offset + Text.utf8Size lexeme.text) (lexeme.role.depthAfter depth) lexemes := rfl

theorem depths_append (front back : List Lexeme) :
    depths offset depth (front ++ back) = depths offset depth front ++
      depths (offset + size front) ((front.map Lexeme.role).foldl TokenRole.depthAfter depth)
        back := by
  induction front generalizing offset depth with
  | nil => rfl
  | cons lexeme front ih => simp [ih, Nat.add_assoc]

end Lexeme

namespace Tree

mutual

/-- The groups of a tree below a number of others, in the order in which they open: where each of
    them starts and how many it stands in. -/
def depths (depth : Nat) : Tree → List (Nat × Nat)
  | node label span children =>
    (if label.isGroup then [(span.start, depth)] else []) ++
      depthsIn (depth + if label.isGroup then 1 else 0) children

/-- The groups of several trees. -/
def depthsIn (depth : Nat) : List Tree → List (Nat × Nat)
  | [] => []
  | tree :: trees => tree.depths depth ++ depthsIn depth trees

end

variable (depth : Nat)

theorem depthsIn_append (front back : List Tree) :
    depthsIn depth (front ++ back) = depthsIn depth front ++ depthsIn depth back := by
  induction front with
  | nil => rfl
  | cons tree front ih => simp [depthsIn, ih]

theorem depths_sequence (place : Nat) (items : List Tree) :
    (sequence place items).depths depth = depthsIn depth items := by
  match items with
  | [] => rfl
  | [item] => simp [sequence, depthsIn]
  | first :: second :: others => simp [sequence, depths, Label.isGroup]

theorem depths_choice (place : Nat) (branches : List Tree) :
    (choice place branches).depths depth = depthsIn depth branches := by
  match branches with
  | [] => rfl
  | [branch] => simp [choice, depthsIn]
  | first :: second :: others => simp [choice, depths, Label.isGroup]

end Tree

namespace Phrase

variable (depth : Nat)

theorem depths_tree_suffixItem (suffix : Option Suffix) (atom : Tree) :
    (suffixItem suffix atom).tree.depths depth = atom.depths depth := by
  cases suffix with
  | none => rfl
  | some suffix => simp [suffixItem, Item.tree, Tree.depths, Tree.depthsIn, Label.isGroup]

theorem depths_suffixLexemes (offset : Nat) (suffix : Option Suffix) :
    Lexeme.depths offset depth (suffixLexemes suffix) = [] := by
  cases suffix with
  | none => rfl
  | some suffix =>
    cases hlazy : suffix.isLazy <;> simp [suffixLexemes, hlazy, lazyMark, TokenRole.isOpener]

theorem foldl_depthAfter_sequenceLexemes (phrases : List Phrase) :
    ((sequenceLexemes phrases).map Lexeme.role).foldl TokenRole.depthAfter depth = depth := by
  obtain ⟨_, hnested⟩ := exists_nested_sequenceLexemes phrases
  exact hnested.foldl_depthAfter depth

theorem foldl_depthAfter_earlierLexemes (branches : List (List Phrase)) :
    ((earlierLexemes branches).map Lexeme.role).foldl TokenRole.depthAfter depth = depth := by
  obtain ⟨_, hnested⟩ := exists_nested_earlierLexemes branches
  exact hnested.foldl_depthAfter depth

theorem foldl_depthAfter_lexemes (phrase : Phrase) :
    (phrase.lexemes.map Lexeme.role).foldl TokenRole.depthAfter depth = depth := by
  obtain ⟨_, hnested⟩ := phrase.exists_nested_lexemes
  exact hnested.foldl_depthAfter depth

mutual

/-- The groups of an item stand in as many others as are open where its lexemes open them. -/
theorem depths_tree (offset numbered : Nat) (depth : Nat) (phrase : Phrase) :
    (phrase.tree offset numbered).depths depth = Lexeme.depths offset depth phrase.lexemes := by
  cases phrase with
  | leaf atom text suffix =>
    rw [tree, item, depths_tree_suffixItem, lexemes, Lexeme.depths_cons, depths_suffixLexemes]
    cases atom <;> rfl
  | group opener text earlier last suffix =>
    rw [tree, item, depths_tree_suffixItem, lexemes]
    simp only [Tree.depths, Tree.depthsIn, Tree.depths_choice, Tree.depthsIn_append,
      Tree.depths_sequence, depthsIn_earlierTrees, depthsIn_items, Lexeme.depths_cons,
      Lexeme.depths_append, depths_suffixLexemes, foldl_depthAfter_earlierLexemes,
      foldl_depthAfter_sequenceLexemes]
    simp [Label.isGroup, TokenRole.isOpener, TokenRole.depthAfter, closer]

theorem depthsIn_items (offset numbered : Nat) (depth : Nat) (phrases : List Phrase) :
    Tree.depthsIn depth ((items offset numbered phrases).map Item.tree) =
      Lexeme.depths offset depth (sequenceLexemes phrases) := by
  cases phrases with
  | nil => rfl
  | cons phrase phrases =>
    have hphrase := depths_tree offset numbered depth phrase
    rw [tree] at hphrase
    rw [items, List.map_cons, Tree.depthsIn, hphrase, depthsIn_items, sequenceLexemes,
      Lexeme.depths_append, foldl_depthAfter_lexemes]

theorem depthsIn_earlierTrees (offset numbered : Nat) (depth : Nat)
    (branches : List (List Phrase)) :
    Tree.depthsIn depth (earlierTrees offset numbered branches) =
      Lexeme.depths offset depth (earlierLexemes branches) := by
  cases branches with
  | nil => rfl
  | cons branch branches =>
    rw [earlierTrees, Tree.depthsIn, Tree.depths_sequence, depthsIn_items, depthsIn_earlierTrees,
      earlierLexemes, Lexeme.depths_append, Lexeme.depths_cons, foldl_depthAfter_sequenceLexemes,
      utf8Size_text_bar]
    rfl

end

end Phrase

/-- The groups of a choice stand in as many others as are open where its lexemes open them. -/
theorem Choice.depths_tree (offset numbered depth : Nat) (choice : Choice) :
    (choice.tree offset numbered).depths depth = Lexeme.depths offset depth choice.lexemes := by
  rw [tree_eq, Tree.depths_choice, Tree.depthsIn_append, Phrase.depthsIn_earlierTrees, lexemes,
    Lexeme.depths_append, Phrase.foldl_depthAfter_earlierLexemes, Tree.depthsIn,
    Tree.depths_sequence, Phrase.depthsIn_items, Tree.depthsIn, List.append_nil]
  rfl

end PatternTree
