import PatternTree.Proofs.Grammar.Entries
import PatternTree.Proofs.GroupTable

namespace PatternTree

open TokenRole (groupNames)

/-- The name of a group that has one together with a number. -/
def Label.groupName? : Label × Span → Option String
  | (.group ⟨some _, some name⟩, _) => some name
  | _ => none

namespace Label

theorem skips_groupName? : Skips groupName? where
  concatenation _ := rfl
  alternation _ := rfl
  repetition _ _ _ := rfl

theorem groupName?_eq_some_iff {entry : Label × Span} {name : String} :
    groupName? entry = some name ↔ ∃ number, entry.1 = .group ⟨some number, some name⟩ := by
  unfold groupName?
  split
  next number given span => simp [eq_comm]
  next hother =>
    obtain ⟨label, span⟩ := entry
    refine iff_of_false (Option.some_ne_none name).symm ?_
    rintro ⟨number, rfl⟩
    exact hother number name span rfl

end Label

namespace Phrase

theorem groupNames_suffixLexemes (suffix : Option Suffix) :
    groupNames ((suffixLexemes suffix).map Lexeme.role) = [] := by
  cases suffix with
  | none => rfl
  | some suffix =>
    cases hlazy : suffix.isLazy <;> simp [suffixLexemes, hlazy, lazyMark, TokenRole.groupName?]

mutual

/-- The names of an item's groups are those that its lexemes give. -/
theorem groupNames_tree (offset numbered : Nat) (phrase : Phrase) :
    ((phrase.tree offset numbered).entries.filterMap Label.groupName?).Perm
      (groupNames (phrase.lexemes.map Lexeme.role)) := by
  have hskips := Label.skips_groupName?
  cases phrase with
  | leaf atom text suffix =>
    rw [tree, item, filterMap_entries_suffixItem hskips, lexemes, List.map_cons,
      TokenRole.groupNames_cons, groupNames_suffixLexemes]
    cases atom <;> exact .nil
  | group opener text earlier last suffix =>
    have hearlier := groupNames_earlierTrees (offset + Text.utf8Size text)
      (numbered + Lexeme.numbered [⟨.opener opener, text⟩]) earlier
    have hlast := groupNames_items
      (offset + Text.utf8Size text + Lexeme.size (earlierLexemes earlier))
      (numbered + Lexeme.numbered [⟨.opener opener, text⟩] +
        Lexeme.numbered (earlierLexemes earlier)) last
    have hgroup : ∀ span, [(Label.group (opener.group (numbered + 1)), span)].filterMap
        Label.groupName? = (TokenRole.opener opener).groupName?.toList := by
      intro span
      cases opener <;> rfl
    rw [tree, item, filterMap_entries_suffixItem hskips, lexemes]
    simp only [Tree.entries, Tree.entriesIn, List.append_nil, List.filterMap_append,
      Tree.filterMap_entries_choice hskips, Tree.entriesIn_append,
      Tree.filterMap_entries_sequence hskips, hgroup]
    -- The group comes behind what is inside of it and is opened before that.
    refine List.perm_append_comm.trans ?_
    rw [List.map_cons, TokenRole.groupNames_cons]
    simpa [closer, TokenRole.groupName?, groupNames_suffixLexemes] using
      (hearlier.append hlast).append_left _

theorem groupNames_items (offset numbered : Nat) (phrases : List Phrase) :
    ((Tree.entriesIn ((items offset numbered phrases).map Item.tree)).filterMap
      Label.groupName?).Perm (groupNames ((sequenceLexemes phrases).map Lexeme.role)) := by
  cases phrases with
  | nil => exact .nil
  | cons phrase phrases =>
    have hphrase := groupNames_tree offset numbered phrase
    rw [tree] at hphrase
    rw [items, List.map_cons, Tree.entriesIn, List.filterMap_append, sequenceLexemes,
      List.map_append, TokenRole.groupNames_append]
    exact hphrase.append (groupNames_items _ _ phrases)

theorem groupNames_earlierTrees (offset numbered : Nat) (branches : List (List Phrase)) :
    ((Tree.entriesIn (earlierTrees offset numbered branches)).filterMap Label.groupName?).Perm
      (groupNames ((earlierLexemes branches).map Lexeme.role)) := by
  cases branches with
  | nil => exact .nil
  | cons branch branches =>
    have hbranch := groupNames_items offset numbered branch
    have hbranches := groupNames_earlierTrees
      (offset + Lexeme.size (sequenceLexemes branch) + 1)
      (numbered + Lexeme.numbered (sequenceLexemes branch)) branches
    rw [earlierTrees, Tree.entriesIn, List.filterMap_append,
      Tree.filterMap_entries_sequence Label.skips_groupName?, earlierLexemes]
    simpa [bar, TokenRole.groupName?] using hbranch.append hbranches

end

end Phrase

/-- The names of a choice's groups are those that its lexemes give. -/
theorem Choice.groupNames_tree (offset numbered : Nat) (choice : Choice) :
    ((choice.tree offset numbered).entries.filterMap Label.groupName?).Perm
      (groupNames (choice.lexemes.map Lexeme.role)) := by
  have hskips := Label.skips_groupName?
  have hearlier := Phrase.groupNames_earlierTrees offset numbered choice.earlier
  have hlast := Phrase.groupNames_items (choice.lastStart offset) (choice.lastNumbered numbered)
    choice.last
  rw [tree_eq, Tree.filterMap_entries_choice hskips, Tree.entriesIn_append, List.filterMap_append,
    lexemes, List.map_append, TokenRole.groupNames_append, Tree.entriesIn, Tree.entriesIn,
    List.append_nil, Tree.filterMap_entries_sequence hskips]
  exact hearlier.append hlast

/-- A name has numbers in what is read exactly where a token gives it to a group. -/
theorem Pattern.numbersNamed_ne_nil_iff {source : String} {choice : Choice} {name : String} :
    (ofTree source (choice.tree 0 0)).groups.numbersNamed name ≠ [] ↔
      name ∈ groupNames (choice.lexemes.map Lexeme.role) := by
  have htable : (ofTree source (choice.tree 0 0)).groups.numbersNamed name = _ :=
    GroupTable.numbersNamed_ofNodes ((choice.tree 0 0).layout 0 none) name
  rw [htable, ← (choice.groupNames_tree 0 0).mem_iff, ← Tree.map_layout 0 none, List.filterMap_map,
    List.mem_filterMap]
  constructor
  · intro hnumbers
    obtain ⟨number, hnumber⟩ := List.exists_mem_of_ne_nil _ hnumbers
    obtain ⟨node, hnode, hnumber⟩ := List.mem_filterMap.mp hnumber
    exact ⟨node, hnode, Label.groupName?_eq_some_iff.mpr
      ⟨number, Node.numberNamed?_eq_some_iff.mp hnumber⟩⟩
  · rintro ⟨node, hnode, hname⟩
    obtain ⟨number, hlabel⟩ := Label.groupName?_eq_some_iff.mp hname
    exact List.ne_nil_of_mem
      (List.mem_filterMap.mpr ⟨node, hnode, Node.numberNamed?_eq_some_iff.mpr hlabel⟩)

end PatternTree
