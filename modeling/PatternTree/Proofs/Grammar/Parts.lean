import PatternTree.Proofs.Grammar.Placed
import PatternTree.Proofs.Layout

namespace PatternTree

namespace Tree

theorem sequence_of_length_ne_one (offset : Nat) {items : List Tree} (hcount : items.length ≠ 1) :
    sequence offset items = node .concatenation (cover offset items) items := by
  match items with
  | [] => rfl
  | [_] => exact absurd rfl hcount
  | _ :: _ :: _ => rfl

theorem choice_of_length_ne_one (offset : Nat) {branches : List Tree}
    (hcount : branches.length ≠ 1) :
    choice offset branches = node .alternation (cover offset branches) branches := by
  match branches with
  | [] => rfl
  | [_] => exact absurd rfl hcount
  | _ :: _ :: _ => rfl

end Tree

namespace Phrase

/-- An item takes the bytes of its lexemes. -/
theorem span_tree (offset numbered : Nat) (phrase : Phrase) :
    (phrase.tree offset numbered).span = ⟨offset, offset + Lexeme.size phrase.lexemes⟩ := by
  cases phrase with
  | leaf atom text suffix =>
    cases suffix with
    | none => simp [tree, item, suffixItem, Item.tree, Tree.leaf, Tree.span, lexemes, suffixLexemes]
    | some suffix =>
      simp [tree, item, suffixItem, Item.tree, Tree.leaf, Tree.span, lexemes, Nat.add_assoc]
  | group opener text earlier last suffix =>
    cases suffix with
    | none =>
      simp [tree, item, suffixItem, Item.tree, Tree.span, lexemes, suffixLexemes,
        Nat.add_assoc]
    | some suffix =>
      simp [tree, item, suffixItem, Item.tree, Tree.span, lexemes, Nat.add_assoc]

end Phrase

namespace Choice

/-- An item alone. -/
def ofItem (phrase : Phrase) : Choice :=
  ⟨[], [phrase]⟩

/-- A branch alone. -/
def ofBranch (branch : List Phrase) : Choice :=
  ⟨[], branch⟩

/-- The lexemes of choices with others between neighbours. -/
def joined (separator : List Lexeme) : List Choice → List Lexeme
  | [] => []
  | [choice] => choice.lexemes
  | choice :: other :: choices =>
    choice.lexemes ++ (separator ++ joined separator (other :: choices))

/-- The trees of choices that stand one after the other with lexemes between neighbours that
    open no group. -/
def trees (separator : List Lexeme) (offset numbered : Nat) : List Choice → List Tree
  | [] => []
  | choice :: choices =>
    choice.tree offset numbered ::
      trees separator (offset + Lexeme.size choice.lexemes + Lexeme.size separator)
        (numbered + Lexeme.numbered choice.lexemes) choices

@[simp] theorem lexemes_ofItem (phrase : Phrase) : (ofItem phrase).lexemes = phrase.lexemes := by
  simp [ofItem, lexemes, Phrase.earlierLexemes]

@[simp] theorem lexemes_ofBranch (branch : List Phrase) :
    (ofBranch branch).lexemes = Phrase.sequenceLexemes branch := by
  simp [ofBranch, lexemes, Phrase.earlierLexemes]

@[simp] theorem tree_ofItem (offset numbered : Nat) (phrase : Phrase) :
    (ofItem phrase).tree offset numbered = phrase.tree offset numbered := by
  rw [tree_eq]
  simp [ofItem, Phrase.earlierTrees, Phrase.items, lastStart, lastNumbered, Phrase.earlierLexemes,
    Tree.choice, Tree.sequence, Phrase.tree]

@[simp] theorem tree_ofBranch (offset numbered : Nat) (branch : List Phrase) :
    (ofBranch branch).tree offset numbered =
      .sequence (offset + Lexeme.size (Phrase.sequenceLexemes branch))
        ((Phrase.items offset numbered branch).map Item.tree) := by
  rw [tree_eq]
  simp [ofBranch, lexemes, Phrase.earlierTrees, lastStart, lastNumbered, Phrase.earlierLexemes,
    Tree.choice]

theorem length_trees (separator : List Lexeme) (offset numbered : Nat) (choices : List Choice) :
    (trees separator offset numbered choices).length = choices.length := by
  induction choices generalizing offset numbered with
  | nil => rfl
  | cons choice choices ih => simp [trees, ih]

/-- A sequence is its items with nothing between them. -/
theorem joined_map_ofItem (phrases : List Phrase) :
    joined [] (phrases.map ofItem) = Phrase.sequenceLexemes phrases := by
  induction phrases with
  | nil => rfl
  | cons phrase phrases ih =>
    cases phrases with
    | nil => simp [joined, Phrase.sequenceLexemes]
    | cons other phrases =>
      rw [List.map_cons, List.map_cons, joined, ← List.map_cons, ih, lexemes_ofItem,
        List.nil_append, Phrase.sequenceLexemes.eq_2 phrase]

theorem trees_map_ofItem (offset numbered : Nat) (phrases : List Phrase) :
    trees [] offset numbered (phrases.map ofItem) =
      (Phrase.items offset numbered phrases).map Item.tree := by
  induction phrases generalizing offset numbered with
  | nil => rfl
  | cons phrase phrases ih => simp [trees, Phrase.items, ih, Phrase.tree]

/-- A choice is its branches with bars between them. -/
theorem joined_map_ofBranch (earlier : List (List Phrase)) (last : List Phrase) :
    joined [Phrase.bar] ((earlier ++ [last]).map ofBranch) =
      Phrase.earlierLexemes earlier ++ Phrase.sequenceLexemes last := by
  induction earlier with
  | nil => simp [joined, Phrase.earlierLexemes]
  | cons branch earlier ih =>
    obtain ⟨other, others, hothers⟩ := List.exists_cons_of_ne_nil
      (List.append_ne_nil_of_right_ne_nil earlier (List.cons_ne_nil last []))
    rw [hothers] at ih
    rw [List.cons_append, hothers, List.map_cons, List.map_cons, joined, ← List.map_cons, ih,
      Phrase.earlierLexemes]
    simp

theorem trees_map_ofBranch (offset numbered : Nat) (earlier : List (List Phrase))
    (last : List Phrase) :
    trees [Phrase.bar] offset numbered ((earlier ++ [last]).map ofBranch) =
      Phrase.earlierTrees offset numbered earlier ++
        [(ofBranch last).tree (offset + Lexeme.size (Phrase.earlierLexemes earlier))
          (numbered + Lexeme.numbered (Phrase.earlierLexemes earlier))] := by
  induction earlier generalizing offset numbered with
  | nil => simp [trees, Phrase.earlierTrees, Phrase.earlierLexemes]
  | cons branch earlier ih =>
    rw [List.cons_append, List.map_cons, trees, ih]
    simp [Phrase.earlierTrees, Phrase.earlierLexemes, Nat.add_assoc]

theorem cover_cons (place : Nat) (tree : Tree) {trees : List Tree} (htrees : trees ≠ []) :
    Tree.cover place (tree :: trees) = tree.span.through (Tree.cover place trees) := by
  obtain ⟨first, others, rfl⟩ := List.exists_cons_of_ne_nil htrees
  simp [Tree.cover, Span.through, List.getLast?_eq_some_getLast]

/-- Trees that stand one after the other cover what their lexemes take together. -/
theorem cover_trees {separator : List Lexeme} {choices : List Choice}
    (hspan : ∀ choice ∈ choices, ∀ offset numbered, (choice.tree offset numbered).span =
      ⟨offset, offset + Lexeme.size choice.lexemes⟩)
    (hchoices : choices ≠ []) (place offset numbered : Nat) :
    Tree.cover place (trees separator offset numbered choices) =
      ⟨offset, offset + Lexeme.size (joined separator choices)⟩ := by
  induction choices generalizing offset numbered with
  | nil => exact absurd rfl hchoices
  | cons choice choices ih =>
    have hchoice := hspan choice List.mem_cons_self offset numbered
    cases choices with
    | nil => simp [trees, joined, Tree.cover, hchoice, Span.through]
    | cons other choices =>
      have hothers := ih (fun choice hmem => hspan choice (List.mem_cons_of_mem _ hmem))
        (List.cons_ne_nil _ _)
      rw [trees, cover_cons _ _ (by simp [trees]), hothers, hchoice, joined]
      simp [Span.through, Nat.add_assoc]

/-- How a tree is made of the trees of parts of its lexemes. -/
inductive Splits (offset numbered : Nat) : List Lexeme → Tree → Prop where
  | leaf (atom : Atom) (text : List Char) :
      Splits offset numbered [⟨.atom atom, text⟩]
        (.node atom.label ⟨offset, offset + Text.utf8Size text⟩ [])
  | group (opener : Opener) (text : List Char) (inner : Choice) :
      Splits offset numbered (⟨.opener opener, text⟩ :: (inner.lexemes ++ [Phrase.closer]))
        (.node (.group (opener.group (numbered + 1)))
          ⟨offset, offset + Text.utf8Size text + Lexeme.size inner.lexemes + 1⟩
          [inner.tree (offset + Text.utf8Size text)
            (numbered + Lexeme.numbered [⟨.opener opener, text⟩])])
  | repetition (inner : Choice) (suffix : Suffix) :
      Splits offset numbered (inner.lexemes ++ Phrase.suffixLexemes (some suffix))
        (.node (.repetition suffix.quantifier.written (!suffix.isLazy))
          ⟨offset, offset + Lexeme.size inner.lexemes +
            Lexeme.size (Phrase.suffixLexemes (some suffix))⟩
          [inner.tree offset numbered])
  | concatenation (items : List Choice) (hcount : items.length ≠ 1) :
      Splits offset numbered (joined [] items)
        (.node .concatenation ⟨offset, offset + Lexeme.size (joined [] items)⟩
          (trees [] offset numbered items))
  | alternation (branches : List Choice) (hcount : 2 ≤ branches.length) :
      Splits offset numbered (joined [Phrase.bar] branches)
        (.node .alternation ⟨offset, offset + Lexeme.size (joined [Phrase.bar] branches)⟩
          (trees [Phrase.bar] offset numbered branches))

theorem splits_item (offset numbered : Nat) (phrase : Phrase) :
    Splits offset numbered phrase.lexemes (phrase.tree offset numbered) := by
  have hspan := phrase.span_tree offset numbered
  cases hsuffix : phrase.suffix with
  | none =>
    cases phrase with
    | leaf atom text suffix =>
      obtain rfl : suffix = none := hsuffix
      exact .leaf atom text
    | group opener text earlier last suffix =>
      obtain rfl : suffix = none := hsuffix
      have hgroup : Splits offset numbered _ _ := .group opener text ⟨earlier, last⟩
      rw [Phrase.tree, Phrase.item_group offset numbered opener text ⟨earlier, last⟩,
        Phrase.lexemes_group opener text ⟨earlier, last⟩]
      exact hgroup
  | some suffix =>
    have hbody := (phrase.withSuffix none).span_tree offset numbered
    have htree : phrase.tree offset numbered =
        (Phrase.suffixItem (some suffix) ((phrase.withSuffix none).tree offset numbered)).tree := by
      rw [← phrase.item_withSuffix, ← hsuffix, phrase.withSuffix_suffix, Phrase.tree]
    have hlexemes : phrase.lexemes =
        (ofItem (phrase.withSuffix none)).lexemes ++ Phrase.suffixLexemes (some suffix) := by
      rw [lexemes_ofItem, ← phrase.lexemes_withSuffix, ← hsuffix, phrase.withSuffix_suffix]
    rw [htree, hlexemes, Phrase.suffixItem, Item.tree, hbody, ← tree_ofItem, ← lexemes_ofItem]
    exact .repetition _ suffix

theorem splits_ofBranch (offset numbered : Nat) (branch : List Phrase) :
    Splits offset numbered (ofBranch branch).lexemes ((ofBranch branch).tree offset numbered) := by
  by_cases hcount : branch.length = 1
  · obtain ⟨phrase, rfl⟩ := List.length_eq_one_iff.mp hcount
    have hitem := splits_item offset numbered phrase
    rwa [← tree_ofItem, ← lexemes_ofItem] at hitem
  · have hitems : ∀ choice ∈ branch.map ofItem, ∀ offset numbered,
        (choice.tree offset numbered).span = ⟨offset, offset + Lexeme.size choice.lexemes⟩ := by
      intro choice hchoice offset numbered
      obtain ⟨phrase, -, rfl⟩ := List.mem_map.mp hchoice
      rw [tree_ofItem, lexemes_ofItem, Phrase.span_tree]
    rw [tree_ofBranch, lexemes_ofBranch, ← trees_map_ofItem, ← joined_map_ofItem,
      Tree.sequence_of_length_ne_one _ (by rwa [length_trees, List.length_map])]
    by_cases hempty : branch = []
    · subst hempty
      exact .concatenation [] (by simp)
    · rw [cover_trees hitems (by simpa using hempty)]
      exact .concatenation _ (by rwa [List.length_map])

theorem Splits.span_eq {offset numbered : Nat} {lexemes : List Lexeme} {tree : Tree}
    (hsplits : Splits offset numbered lexemes tree) :
    tree.span = ⟨offset, offset + Lexeme.size lexemes⟩ := by
  cases hsplits with
  | leaf atom text => simp [Tree.span]
  | group opener text inner => simp [Tree.span, Nat.add_assoc]
  | repetition inner suffix => simp [Tree.span, Nat.add_assoc]
  | concatenation items hcount => rfl
  | alternation branches hcount => rfl

/-- Every tree that the grammar makes is a leaf, a group around a choice, a repetition of one,
    or several of them side by side. -/
theorem splits (offset numbered : Nat) (choice : Choice) :
    Splits offset numbered choice.lexemes (choice.tree offset numbered) := by
  obtain ⟨earlier, last⟩ := choice
  by_cases hearlier : earlier = []
  · subst hearlier
    exact splits_ofBranch offset numbered last
  · have hbranches : ∀ choice ∈ (earlier ++ [last]).map ofBranch, ∀ offset numbered,
        (choice.tree offset numbered).span = ⟨offset, offset + Lexeme.size choice.lexemes⟩ := by
      intro choice hchoice offset numbered
      obtain ⟨branch, -, rfl⟩ := List.mem_map.mp hchoice
      exact (splits_ofBranch offset numbered branch).span_eq
    have hcover : ∀ place, Tree.cover place (trees [Phrase.bar] offset numbered _) = _ :=
      fun place => cover_trees hbranches (by simp) place offset numbered
    have hlexemes : (⟨earlier, last⟩ : Choice).lexemes =
        joined [Phrase.bar] ((earlier ++ [last]).map ofBranch) :=
      (joined_map_ofBranch earlier last).symm
    have hlast : (ofBranch last).tree (offset + Lexeme.size (Phrase.earlierLexemes earlier))
        (numbered + Lexeme.numbered (Phrase.earlierLexemes earlier)) =
        .sequence (offset + Lexeme.size (⟨earlier, last⟩ : Choice).lexemes)
          ((Phrase.items (offset + Lexeme.size (Phrase.earlierLexemes earlier))
            (numbered + Lexeme.numbered (Phrase.earlierLexemes earlier)) last).map Item.tree) := by
      rw [tree_ofBranch, lexemes, Lexeme.size_append, Nat.add_assoc]
    have hcount : 2 ≤ ((earlier ++ [last]).map ofBranch).length := by
      have hpos := List.length_pos_iff.mpr hearlier
      simp
      omega
    rw [tree_eq, lastStart, lastNumbered, ← hlast, ← trees_map_ofBranch, hlexemes]
    have hcount' : (trees [Phrase.bar] offset numbered
        ((earlier ++ [last]).map ofBranch)).length ≠ 1 := by
      rw [length_trees]
      omega
    rw [Tree.choice_of_length_ne_one _ hcount', hcover]
    exact .alternation _ hcount

/-- A choice takes the bytes of its lexemes. -/
theorem span_tree (offset numbered : Nat) (choice : Choice) :
    (choice.tree offset numbered).span = ⟨offset, offset + Lexeme.size choice.lexemes⟩ :=
  (choice.splits offset numbered).span_eq

/-- A tree among others is that of one of the choices, with what stands before it. -/
theorem exists_of_mem_trees {separator : List Lexeme} (hseparator : Lexeme.numbered separator = 0)
    {offset numbered : Nat} {choices : List Choice} {child : Tree}
    (hchild : child ∈ trees separator offset numbered choices) :
    ∃ front inner back, joined separator choices = front ++ (lexemes inner ++ back) ∧
      child = inner.tree (offset + Lexeme.size front) (numbered + Lexeme.numbered front) := by
  induction choices generalizing offset numbered with
  | nil => simp [trees] at hchild
  | cons choice choices ih =>
    obtain rfl | hchild := List.mem_cons.mp hchild
    · cases choices with
      | nil => exact ⟨[], choice, [], by simp [joined], by simp⟩
      | cons other choices =>
        exact ⟨[], choice, separator ++ joined separator (other :: choices), by simp [joined],
          by simp⟩
    · obtain ⟨front, inner, back, hlexemes, rfl⟩ := ih hchild
      cases choices with
      | nil => simp [trees] at hchild
      | cons other choices =>
        refine ⟨choice.lexemes ++ (separator ++ front), inner, back, ?_, ?_⟩
        · simp [joined, hlexemes]
        · simp [hseparator, Nat.add_assoc]

theorem Splits.exists_of_mem_children {offset numbered : Nat} {lexemes : List Lexeme}
    {tree child : Tree} (hsplits : Splits offset numbered lexemes tree)
    (hchild : child ∈ tree.children) :
    ∃ front inner back, lexemes = front ++ (Choice.lexemes inner ++ back) ∧
      child = inner.tree (offset + Lexeme.size front) (numbered + Lexeme.numbered front) := by
  cases hsplits with
  | leaf atom text => cases hchild
  | group opener text inner =>
    obtain rfl := List.mem_singleton.mp hchild
    exact ⟨[⟨.opener opener, text⟩], inner, [Phrase.closer], rfl, by simp⟩
  | repetition inner suffix =>
    obtain rfl := List.mem_singleton.mp hchild
    exact ⟨[], inner, Phrase.suffixLexemes (some suffix), rfl, by simp⟩
  | concatenation items hcount => exact exists_of_mem_trees rfl hchild
  | alternation branches hcount => exact exists_of_mem_trees rfl hchild

/-- A tree within that of a choice is the tree of a choice of its own, whose lexemes stand
    together among those of the other. -/
theorem exists_of_within {offset numbered : Nat} {choice : Choice} {sub : Tree}
    (hsub : sub.Within (choice.tree offset numbered)) :
    ∃ front inner back, choice.lexemes = front ++ (Choice.lexemes inner ++ back) ∧
      sub = inner.tree (offset + Lexeme.size front) (numbered + Lexeme.numbered front) := by
  generalize htree : choice.tree offset numbered = tree at hsub
  induction hsub generalizing offset numbered choice with
  | refl tree => exact ⟨[], choice, [], by simp, by simp [htree]⟩
  | @child label span children child sub hchild _ ih =>
    have hchild' : child ∈ (choice.tree offset numbered).children := by
      rw [htree]
      exact hchild
    obtain ⟨front, middle, back, hlexemes, hmiddle⟩ :=
      (choice.splits offset numbered).exists_of_mem_children hchild'
    obtain ⟨front', inner, back', hlexemes', rfl⟩ := ih hmiddle.symm
    refine ⟨front ++ front', inner, back' ++ back, ?_, ?_⟩
    · simp [hlexemes, hlexemes']
    · simp [Nat.add_assoc]

end Choice

end PatternTree
