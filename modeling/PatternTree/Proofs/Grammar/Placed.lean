import PatternTree.Proofs.Grammar
import PatternTree.Tree.Parser

namespace PatternTree

namespace Phrase

/-- The item that an atom's tree makes together with the quantifier behind it. -/
def suffixItem : Option Suffix → Tree → Item
  | none, atom => .plain atom
  | some suffix, atom =>
    .repeated atom suffix.quantifier.written (!suffix.isLazy)
      (atom.span.stop + Lexeme.size (suffixLexemes (some suffix)))

mutual

/-- The item that the parser makes of a phrase that starts at an offset. -/
def item (offset numbered : Nat) : Phrase → Item
  | leaf atom text suffix =>
    suffixItem suffix (.leaf atom.label ⟨offset, offset + Text.utf8Size text⟩)
  | group opener text earlier last suffix =>
    let start := offset + Text.utf8Size text
    let inside := numbered + Lexeme.numbered [⟨.opener opener, text⟩]
    let lastStart := start + Lexeme.size (earlierLexemes earlier)
    let stop := lastStart + Lexeme.size (sequenceLexemes last)
    let items := items lastStart (inside + Lexeme.numbered (earlierLexemes earlier)) last
    let body := .choice stop
      (earlierTrees start inside earlier ++ [.sequence stop (items.map Item.tree)])
    suffixItem suffix (.node (.group (opener.group (numbered + 1))) ⟨offset, stop + 1⟩ [body])

/-- The items of phrases that stand one after the other. -/
def items (offset numbered : Nat) : List Phrase → List Item
  | [] => []
  | phrase :: phrases =>
    phrase.item offset numbered ::
      items (offset + Lexeme.size phrase.lexemes)
        (numbered + Lexeme.numbered phrase.lexemes) phrases

/-- The trees of branches that stand one after the other with a bar behind each. -/
def earlierTrees (offset numbered : Nat) : List (List Phrase) → List Tree
  | [] => []
  | branch :: branches =>
    let stop := offset + Lexeme.size (sequenceLexemes branch)
    .sequence stop ((items offset numbered branch).map Item.tree) ::
      earlierTrees (stop + 1) (numbered + Lexeme.numbered (sequenceLexemes branch)) branches

end

/-- The tree of a phrase that starts at an offset. -/
def tree (offset numbered : Nat) (phrase : Phrase) : Tree :=
  (phrase.item offset numbered).tree

@[simp] theorem utf8Size_text_bar : Text.utf8Size bar.text = 1 := rfl

@[simp] theorem utf8Size_text_closer : Text.utf8Size closer.text = 1 := rfl

theorem items_append (offset numbered : Nat) (front back : List Phrase) :
    items offset numbered (front ++ back) = items offset numbered front ++
      items (offset + Lexeme.size (sequenceLexemes front))
        (numbered + Lexeme.numbered (sequenceLexemes front)) back := by
  induction front generalizing offset numbered with
  | nil => simp [items, sequenceLexemes]
  | cons phrase front ih => simp [items, sequenceLexemes, ih, Nat.add_assoc]

theorem earlierTrees_append (offset numbered : Nat) (front back : List (List Phrase)) :
    earlierTrees offset numbered (front ++ back) = earlierTrees offset numbered front ++
      earlierTrees (offset + Lexeme.size (earlierLexemes front))
        (numbered + Lexeme.numbered (earlierLexemes front)) back := by
  induction front generalizing offset numbered with
  | nil => simp [earlierTrees, earlierLexemes]
  | cons branch front ih =>
    simp [earlierTrees, earlierLexemes, ih, Nat.add_assoc]

end Phrase

namespace Choice

/-- Where the last branch of a choice starts. -/
def lastStart (offset : Nat) (choice : Choice) : Nat :=
  offset + Lexeme.size (Phrase.earlierLexemes choice.earlier)

/-- How many groups have got their numbers before the last branch of a choice. -/
def lastNumbered (numbered : Nat) (choice : Choice) : Nat :=
  numbered + Lexeme.numbered (Phrase.earlierLexemes choice.earlier)

/-- What the parser keeps of a choice that may still go on. -/
def level (offset numbered : Nat) (choice : Choice) : Level :=
  { branches := (Phrase.earlierTrees offset numbered choice.earlier).reverse
    items := (Phrase.items (choice.lastStart offset) (choice.lastNumbered numbered)
      choice.last).reverse }

/-- The tree of a choice that starts at an offset. -/
def tree (offset numbered : Nat) (choice : Choice) : Tree :=
  (choice.level offset numbered).tree (offset + Lexeme.size choice.lexemes)

theorem tree_eq (offset numbered : Nat) (choice : Choice) :
    choice.tree offset numbered = .choice (offset + Lexeme.size choice.lexemes)
      (Phrase.earlierTrees offset numbered choice.earlier ++
        [.sequence (offset + Lexeme.size choice.lexemes)
          ((Phrase.items (choice.lastStart offset) (choice.lastNumbered numbered)
            choice.last).map Item.tree)]) := by
  simp [tree, Level.tree, Level.nextBranch, Level.branch, level]

end Choice

namespace Phrase

/-- A group's item is built around the tree of the choice between its parentheses. -/
theorem item_group (offset numbered : Nat) (opener : Opener) (text : List Char)
    (choice : Choice) (suffix : Option Suffix) :
    (group opener text choice.earlier choice.last suffix).item offset numbered =
      suffixItem suffix (.node (.group (opener.group (numbered + 1)))
        ⟨offset, offset + Text.utf8Size text + Lexeme.size choice.lexemes + 1⟩
        [choice.tree (offset + Text.utf8Size text)
          (numbered + Lexeme.numbered [⟨.opener opener, text⟩])]) := by
  simp only [item, Choice.tree_eq, Choice.lexemes, Choice.lastStart, Choice.lastNumbered,
    Lexeme.size_append, Nat.add_assoc]

theorem lexemes_group (opener : Opener) (text : List Char) (choice : Choice)
    (suffix : Option Suffix) :
    (group opener text choice.earlier choice.last suffix).lexemes =
      ⟨.opener opener, text⟩ :: (choice.lexemes ++ closer :: suffixLexemes suffix) := by
  simp [lexemes, Choice.lexemes]

/-- The quantifier of an item. -/
def suffix : Phrase → Option Suffix
  | leaf _ _ suffix => suffix
  | group _ _ _ _ suffix => suffix

/-- The item with another quantifier or none in the place of its own. -/
def withSuffix (suffix : Option Suffix) : Phrase → Phrase
  | leaf atom text _ => leaf atom text suffix
  | group opener text earlier last _ => group opener text earlier last suffix

theorem withSuffix_suffix (phrase : Phrase) : phrase.withSuffix phrase.suffix = phrase := by
  cases phrase <;> rfl

theorem lexemes_withSuffix (phrase : Phrase) (suffix : Option Suffix) :
    (phrase.withSuffix suffix).lexemes =
      (phrase.withSuffix none).lexemes ++ suffixLexemes suffix := by
  cases phrase <;> simp [withSuffix, lexemes, suffixLexemes]

theorem shape_withSuffix (phrase : Phrase) (suffix : Option Suffix) (numbered : Nat) :
    (phrase.withSuffix suffix).shape numbered =
      suffixShape suffix ((phrase.withSuffix none).shape numbered) := by
  cases phrase <;> rfl

theorem item_withSuffix (phrase : Phrase) (suffix : Option Suffix) (offset numbered : Nat) :
    (phrase.withSuffix suffix).item offset numbered =
      suffixItem suffix ((phrase.withSuffix none).tree offset numbered) := by
  cases phrase <;> simp [withSuffix, tree, item, suffixItem, Item.tree]

/-- What stands before the quantifier ends where the quantifier starts. -/
theorem stop_tree_withSuffix_none (phrase : Phrase) (offset numbered : Nat) :
    ((phrase.withSuffix none).tree offset numbered).span.stop =
      offset + Lexeme.size (phrase.withSuffix none).lexemes := by
  cases phrase with
  | leaf atom text suffix =>
    simp [withSuffix, tree, item, suffixItem, Item.tree, Tree.leaf, Tree.span, lexemes,
      suffixLexemes]
  | group opener text earlier last suffix =>
    simp [withSuffix, tree, item, suffixItem, Item.tree, Tree.span, lexemes, suffixLexemes,
      Nat.add_assoc]

end Phrase

end PatternTree
