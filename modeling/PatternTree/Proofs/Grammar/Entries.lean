import PatternTree.Proofs.Grammar.Parse
import PatternTree.Proofs.Token.Tiles

namespace PatternTree

/-- A choice among the entries of a tree that leaves out all nodes that are built around others
    without a token of their own. -/
structure Label.Skips {α : Type} (pick : Label × Span → Option α) : Prop where
  concatenation : ∀ span, pick (.concatenation, span) = none
  alternation : ∀ span, pick (.alternation, span) = none
  repetition : ∀ bounds greedy span, pick (.repetition bounds greedy, span) = none

section

variable {α : Type} {pick : Label × Span → Option α} (hpick : Label.Skips pick)

include hpick

theorem Tree.filterMap_entries_sequence (place : Nat) (items : List Tree) :
    (sequence place items).entries.filterMap pick = (entriesIn items).filterMap pick := by
  match items with
  | [] => simp [sequence, entries, entriesIn, hpick.concatenation]
  | [item] => simp [sequence, entriesIn]
  | first :: second :: others => simp [sequence, entries, hpick.concatenation]

theorem Tree.filterMap_entries_choice (place : Nat) (branches : List Tree) :
    (choice place branches).entries.filterMap pick = (entriesIn branches).filterMap pick := by
  match branches with
  | [] => simp [choice, entries, entriesIn, hpick.alternation]
  | [branch] => simp [choice, entriesIn]
  | first :: second :: others => simp [choice, entries, hpick.alternation]

theorem Phrase.filterMap_entries_suffixItem (suffix : Option Suffix) (atom : Tree) :
    (suffixItem suffix atom).tree.entries.filterMap pick = atom.entries.filterMap pick := by
  cases suffix with
  | none => rfl
  | some suffix =>
    simp [suffixItem, Item.tree, Tree.entries, Tree.entriesIn, hpick.repetition]

end

/-- The last token of a node that ends with a token of its own: an atom, or the parenthesis that
    closes a group. -/
def Label.mark? : Label × Span → Option Span
  | (.group _, span) => some ⟨span.stop - 1, span.stop⟩
  | (.alternation, _) => none
  | (.concatenation, _) => none
  | (.repetition _ _, _) => none
  | (_, span) => some span

theorem Label.skips_mark? : Skips mark? where
  concatenation _ := rfl
  alternation _ := rfl
  repetition _ _ _ := rfl

theorem Label.mark?_atom (atom : Atom) (span : Span) : mark? (atom.label, span) = some span := by
  cases atom <;> rfl

/-- Whether a token is an atom or closes a group. -/
def TokenRole.isMark : TokenRole → Bool
  | atom _ => true
  | closer => true
  | _ => false

namespace Lexeme

/-- The places of the atoms and closing parentheses among lexemes from an offset on. -/
def marks (offset : Nat) (lexemes : List Lexeme) : List Span :=
  ((place offset lexemes).filter (·.role.isMark)).map Token.span

variable (offset : Nat)

@[simp] theorem marks_nil : marks offset [] = [] := rfl

@[simp] theorem marks_cons (lexeme : Lexeme) (lexemes : List Lexeme) :
    marks offset (lexeme :: lexemes) =
      (if lexeme.role.isMark then [⟨offset, offset + Text.utf8Size lexeme.text⟩] else []) ++
        marks (offset + Text.utf8Size lexeme.text) lexemes := by
  cases hmark : lexeme.role.isMark <;> simp [marks, place, token, hmark]

@[simp] theorem marks_append (front back : List Lexeme) :
    marks offset (front ++ back) = marks offset front ++ marks (offset + size front) back := by
  simp [marks, place_append]

end Lexeme

namespace Phrase

@[simp] theorem isMark_bar : bar.role.isMark = false := rfl

@[simp] theorem isMark_closer : closer.role.isMark = true := rfl

theorem marks_suffixLexemes (offset : Nat) (suffix : Option Suffix) :
    Lexeme.marks offset (suffixLexemes suffix) = [] := by
  cases suffix with
  | none => rfl
  | some suffix =>
    cases hlazy : suffix.isLazy <;> simp [suffixLexemes, hlazy, lazyMark, TokenRole.isMark]

mutual

/-- The nodes of an item end in the order of the tokens with which they end. -/
theorem marks_tree (offset numbered : Nat) (phrase : Phrase) :
    (phrase.tree offset numbered).entries.filterMap Label.mark? =
      Lexeme.marks offset phrase.lexemes := by
  have hskips := Label.skips_mark?
  cases phrase with
  | leaf atom text suffix =>
    rw [tree, item, filterMap_entries_suffixItem hskips, lexemes, Lexeme.marks_cons,
      marks_suffixLexemes]
    simp [Tree.leaf, Tree.entries, Tree.entriesIn, Label.mark?_atom, TokenRole.isMark]
  | group opener text earlier last suffix =>
    have hopener : (TokenRole.opener opener).isMark = false := rfl
    rw [tree, item, filterMap_entries_suffixItem hskips, lexemes]
    simp only [Tree.entries, Tree.entriesIn, List.append_nil, List.filterMap_append,
      Tree.filterMap_entries_choice hskips, Tree.entriesIn_append,
      Tree.filterMap_entries_sequence hskips, marks_earlierTrees, marks_items, Lexeme.marks_cons,
      Lexeme.marks_append, marks_suffixLexemes]
    simp [Label.mark?, hopener]

theorem marks_items (offset numbered : Nat) (phrases : List Phrase) :
    (Tree.entriesIn ((items offset numbered phrases).map Item.tree)).filterMap Label.mark? =
      Lexeme.marks offset (sequenceLexemes phrases) := by
  cases phrases with
  | nil => rfl
  | cons phrase phrases =>
    have hphrase := marks_tree offset numbered phrase
    rw [tree] at hphrase
    rw [items, List.map_cons, Tree.entriesIn, List.filterMap_append, hphrase, marks_items,
      sequenceLexemes, Lexeme.marks_append]

theorem marks_earlierTrees (offset numbered : Nat) (branches : List (List Phrase)) :
    (Tree.entriesIn (earlierTrees offset numbered branches)).filterMap Label.mark? =
      Lexeme.marks offset (earlierLexemes branches) := by
  cases branches with
  | nil => rfl
  | cons branch branches =>
    rw [earlierTrees, Tree.entriesIn, List.filterMap_append,
      Tree.filterMap_entries_sequence Label.skips_mark?, marks_items, marks_earlierTrees,
      earlierLexemes, Lexeme.marks_append, Lexeme.marks_cons]
    simp

end

end Phrase

/-- The nodes of a choice end in the order of the tokens with which they end. -/
theorem Choice.marks_tree (offset numbered : Nat) (choice : Choice) :
    (choice.tree offset numbered).entries.filterMap Label.mark? =
      Lexeme.marks offset choice.lexemes := by
  have hskips := Label.skips_mark?
  rw [tree_eq, Tree.filterMap_entries_choice hskips, Tree.entriesIn_append, List.filterMap_append,
    Phrase.marks_earlierTrees, lexemes, Lexeme.marks_append, Tree.entriesIn, Tree.entriesIn,
    List.append_nil, Tree.filterMap_entries_sequence hskips, Phrase.marks_items]
  rfl

/-- The number of a group that has one, with the start of the group. -/
def Label.opening? : Label × Span → Option (Nat × Nat)
  | (.group opened, span) => opened.number.map (·, span.start)
  | _ => none

theorem Label.skips_opening? : Skips opening? where
  concatenation _ := rfl
  alternation _ := rfl
  repetition _ _ _ := rfl

namespace Lexeme

/-- The groups that lexemes from an offset on open with a number, when a number of others were
    opened before: the number of each and where it starts. -/
def openings (offset numbered : Nat) : List Lexeme → List (Nat × Nat)
  | [] => []
  | lexeme :: lexemes =>
    (if lexeme.role.isNumbered then [(numbered + 1, offset)] else []) ++
      openings (offset + Text.utf8Size lexeme.text)
        (numbered + Lexeme.numbered [lexeme]) lexemes

variable (offset numbered : Nat)

@[simp] theorem openings_append (front back : List Lexeme) :
    openings offset numbered (front ++ back) =
      openings offset numbered front ++
        openings (offset + size front) (numbered + Lexeme.numbered front) back := by
  induction front generalizing offset numbered with
  | nil => rfl
  | cons lexeme front ih => simp [openings, ih, Nat.add_assoc]

/-- The numbers of the groups follow each other. -/
theorem map_fst_openings (lexemes : List Lexeme) :
    (openings offset numbered lexemes).map Prod.fst =
      List.range' (numbered + 1) (Lexeme.numbered lexemes) := by
  induction lexemes generalizing offset numbered with
  | nil => rfl
  | cons lexeme lexemes ih =>
    cases hrole : lexeme.role.isNumbered with
    | false => simp [openings, hrole, ih]
    | true => simp [openings, hrole, ih, Nat.add_comm 1, List.range'_succ]

end Lexeme

namespace Phrase

theorem openings_suffixLexemes (offset numbered : Nat) (suffix : Option Suffix) :
    Lexeme.openings offset numbered (suffixLexemes suffix) = [] := by
  cases suffix with
  | none => rfl
  | some suffix =>
    cases hlazy : suffix.isLazy <;>
      simp [suffixLexemes, hlazy, lazyMark, Lexeme.openings, TokenRole.isNumbered]

mutual

/-- The groups of an item that have numbers are those that its lexemes open with one. -/
theorem openings_tree (offset numbered : Nat) (phrase : Phrase) :
    ((phrase.tree offset numbered).entries.filterMap Label.opening?).Perm
      (Lexeme.openings offset numbered phrase.lexemes) := by
  have hskips := Label.skips_opening?
  cases phrase with
  | leaf atom text suffix =>
    rw [tree, item, filterMap_entries_suffixItem hskips, lexemes, Lexeme.openings,
      openings_suffixLexemes]
    cases atom <;> rfl
  | group opener text earlier last suffix =>
    have hearlier := openings_earlierTrees (offset + Text.utf8Size text)
      (numbered + Lexeme.numbered [⟨.opener opener, text⟩]) earlier
    have hlast := openings_items
      (offset + Text.utf8Size text + Lexeme.size (earlierLexemes earlier))
      (numbered + Lexeme.numbered [⟨.opener opener, text⟩] +
        Lexeme.numbered (earlierLexemes earlier)) last
    have hgroup : ∀ span, [(Label.group (opener.group (numbered + 1)), span)].filterMap
        Label.opening? =
          if (TokenRole.opener opener).isNumbered then [(numbered + 1, span.start)] else [] := by
      intro span
      cases opener <;> rfl
    rw [tree, item, filterMap_entries_suffixItem hskips, lexemes]
    simp only [Tree.entries, Tree.entriesIn, List.append_nil, List.filterMap_append,
      Tree.filterMap_entries_choice hskips, Tree.entriesIn_append,
      Tree.filterMap_entries_sequence hskips, hgroup]
    -- The group comes behind what is inside of it and is opened before that.
    refine List.perm_append_comm.trans ?_
    rw [Lexeme.openings, Lexeme.openings_append, Lexeme.openings_append, Lexeme.openings,
      openings_suffixLexemes, isNumbered_closer]
    simpa using (hearlier.append hlast).append_left _

theorem openings_items (offset numbered : Nat) (phrases : List Phrase) :
    ((Tree.entriesIn ((items offset numbered phrases).map Item.tree)).filterMap
      Label.opening?).Perm (Lexeme.openings offset numbered (sequenceLexemes phrases)) := by
  cases phrases with
  | nil => exact .nil
  | cons phrase phrases =>
    have hphrase := openings_tree offset numbered phrase
    rw [tree] at hphrase
    rw [items, List.map_cons, Tree.entriesIn, List.filterMap_append, sequenceLexemes,
      Lexeme.openings_append]
    exact hphrase.append (openings_items _ _ phrases)

theorem openings_earlierTrees (offset numbered : Nat) (branches : List (List Phrase)) :
    ((Tree.entriesIn (earlierTrees offset numbered branches)).filterMap Label.opening?).Perm
      (Lexeme.openings offset numbered (earlierLexemes branches)) := by
  cases branches with
  | nil => exact .nil
  | cons branch branches =>
    have hbranch := openings_items offset numbered branch
    have hbranches := openings_earlierTrees
      (offset + Lexeme.size (sequenceLexemes branch) + 1)
      (numbered + Lexeme.numbered (sequenceLexemes branch)) branches
    rw [earlierTrees, Tree.entriesIn, List.filterMap_append,
      Tree.filterMap_entries_sequence Label.skips_opening?, earlierLexemes,
      Lexeme.openings_append, Lexeme.openings]
    simpa using hbranch.append hbranches

end

end Phrase

/-- The groups of a choice that have numbers are those that its lexemes open with one. -/
theorem Choice.openings_tree (offset numbered : Nat) (choice : Choice) :
    ((choice.tree offset numbered).entries.filterMap Label.opening?).Perm
      (Lexeme.openings offset numbered choice.lexemes) := by
  have hskips := Label.skips_opening?
  have hearlier := Phrase.openings_earlierTrees offset numbered choice.earlier
  have hlast := Phrase.openings_items (choice.lastStart offset) (choice.lastNumbered numbered)
    choice.last
  rw [tree_eq, Tree.filterMap_entries_choice hskips, Tree.entriesIn_append, List.filterMap_append,
    lexemes, Lexeme.openings_append, Tree.entriesIn, Tree.entriesIn, List.append_nil,
    Tree.filterMap_entries_sequence hskips]
  exact hearlier.append hlast

namespace Lexeme

variable {classSyntax : ClassSyntax} {rest : List Char} {lexemes : List Lexeme}

/-- Atoms and closing parentheses that are read come one after the other. -/
theorem Reads.pairwise_marks (hreads : Reads classSyntax rest lexemes) (offset : Nat) :
    (marks offset lexemes).Pairwise
      (fun first second => first.start < second.start ∧ first.stop < second.stop) := by
  rw [marks, List.pairwise_map]
  apply List.Pairwise.sublist List.filter_sublist
  refine (pairwise_place offset lexemes).imp_of_mem ?_
  intro first second hfirst hsecond hle
  have hfirst' := hreads.start_lt_stop_of_mem hfirst
  have hsecond' := hreads.start_lt_stop_of_mem hsecond
  omega

theorem le_of_mem_openings {offset numbered : Nat} {opening : Nat × Nat}
    (hopening : opening ∈ openings offset numbered lexemes) :
    numbered < opening.1 ∧ offset ≤ opening.2 := by
  induction lexemes generalizing offset numbered with
  | nil => cases hopening
  | cons lexeme lexemes ih =>
    rw [openings, List.mem_append] at hopening
    obtain hfirst | hopening := hopening
    · split at hfirst
      · obtain rfl := List.mem_singleton.mp hfirst
        exact ⟨Nat.lt_succ_self _, Nat.le_refl _⟩
      · cases hfirst
    · have hlater := ih hopening
      omega

/-- A group that is read with a higher number starts behind the one with a lower number. -/
theorem Reads.pairwise_openings (hreads : Reads classSyntax rest lexemes)
    (offset numbered : Nat) :
    (openings offset numbered lexemes).Pairwise
      (fun first second => first.1 < second.1 ∧ first.2 < second.2) := by
  induction hreads generalizing offset numbered with
  | nil => exact .nil
  | @cons role char chars lexemes _ _ ih =>
    have hpos := char.utf8Size_pos
    rw [openings, List.pairwise_append]
    refine ⟨?_, ih _ _, ?_⟩
    · split
      · exact List.pairwise_singleton _ _
      · exact .nil
    · intro first hfirst second hsecond
      have hlater := le_of_mem_openings hsecond
      split at hfirst
      next hrole =>
        obtain rfl := List.mem_singleton.mp hfirst
        simp only [Text.utf8Size, numbered_cons, hrole, if_true, numbered_nil] at hlater
        simp only
        omega
      · cases hfirst

end Lexeme

/-- Of two nodes that end with a token of their own, the later one has the later token. -/
theorem Choice.pairwise_mark?_layout {classSyntax : ClassSyntax} {rest : List Char}
    (choice : Choice) (hreads : Lexeme.Reads classSyntax rest choice.lexemes)
    (offset numbered first : Nat) (attachment : Option Attachment) :
    ((choice.tree offset numbered).layout first attachment).Pairwise fun earlier later =>
      ∀ mark, Label.mark? (earlier.label, earlier.span) = some mark →
        ∀ mark', Label.mark? (later.label, later.span) = some mark' →
          mark.start < mark'.start ∧ mark.stop < mark'.stop := by
  have hmarks := hreads.pairwise_marks offset
  rwa [← choice.marks_tree offset numbered, ← Tree.map_layout first attachment,
    List.filterMap_map, List.pairwise_filterMap] at hmarks

end PatternTree
